/-
  DataNexus.SemanticCore.NullSafety — what a graph declares of its outputs, and what they hold.

  The rows of an entity are of the declared types, with a null only where the field may be
  null (`Conforms`). Then every node's rows are what it declares (`SoundRows`), as long as no
  quotient of two numbers is null whose result is declared not to be: `_derive_output_nullable`
  asks only whether an operand may be null, whatever the operator.

  - `apply_meets`: an aggregate is of the type declared, and not null over a group of rows
    that are not.
  - `evaluate_meets`: neither is a derived column, but for such a quotient.
  - `sound_iff`: the rows of all nodes are sound just if there is none; `ratios_unsound` is a
    graph and data with one, where a division by zero is null.
-/

import DataNexus.SemanticCore.Provenance

namespace DataNexus.SemanticCore

open Lib

/-- A value of the output's type, and no null where it declares none. -/
structure Meets (dataType : DataType) (nullable : Bool) (value : Value) : Prop where
  type : value.hasType dataType = true
  present : nullable = false → value ≠ .null

/-- Every row holds in every output what the node declares. -/
def SoundRows (node : SQGNode) (rows : List Row) : Prop :=
  ∀ row ∈ rows, ∀ output ∈ node.outputs, Meets output.dataType output.nullable (row output.name).value

/-- The rows of the entities hold what the ontology declares. -/
def Conforms (ontology : Ontology) (data : Data) : Prop :=
  ∀ entity field declared, ontology.fieldOf entity field = some declared → ∀ record ∈ data entity,
    Meets declared.dataType declared.nullable (record field)

/-- Two numbers that the engine has no quotient of. -/
def NullQuotient (engine : Engine) (expression : DeriveExpression) (row : Row) : Prop :=
  ∃ a b, expression.left.evaluate row = .number a ∧ expression.right.evaluate row = .number b ∧ engine.quotient a b = none

/-- No row comes to a null quotient that is declared not to be null. -/
def NoNullQuotient (sqg : SemanticQueryGraph) (engine : Engine) (ontology : Ontology) (data : Data) : Prop :=
  ∀ node ∈ sqg.nodes, ∀ expressions, node.params = .derive expressions → ∀ expression ∈ expressions, expression.op = .divide →
    ∀ output ∈ node.outputs, output.name = expression.name → output.nullable = false →
      ∀ input ∈ node.inputs, ∀ row ∈ rowsOf engine ontology data sqg.nodes input, ¬ NullQuotient engine expression row

/-! ## Numbers -/

theorem den_eq_one {q : ℚ} : (q.den == 1) = true ↔ ∃ n : ℤ, q = n := by
  rw [beq_iff_eq]
  refine ⟨fun h => ⟨q.num, (Rat.den_eq_one_iff q |>.mp h).symm⟩, ?_⟩
  rintro ⟨n, rfl⟩
  exact Rat.den_intCast n

theorem whole_sum {qs : List ℚ} (h : ∀ q ∈ qs, ∃ n : ℤ, q = n) : ∃ n : ℤ, qs.sum = n := by
  induction qs with
  | nil => exact ⟨0, by simp⟩
  | cons q qs ih =>
    obtain ⟨n, rfl⟩ := h q List.mem_cons_self
    obtain ⟨m, hm⟩ := ih fun r hr => h r (List.mem_cons_of_mem _ hr)
    exact ⟨n + m, by rw [List.sum_cons, hm]; push_cast; rfl⟩

theorem hasType_number {type : DataType} {q : ℚ} (hnumeric : type.numeric = true) (hwhole : type = .integer → ∃ n : ℤ, q = n) :
    (Value.number q).hasType type = true := by
  cases type with
  | integer => exact den_eq_one.mpr (hwhole rfl)
  | number => rfl
  | decimal => rfl
  | _ => cases hnumeric

/-- A value of a numeric type is a number or null. -/
theorem number_of_hasType {type : DataType} {value : Value} (h : value.hasType type = true) (hnumeric : type.numeric = true) :
    value = .null ∨ ∃ q, value = .number q ∧ (type = .integer → ∃ n : ℤ, q = n) := by
  cases value with
  | null => exact .inl rfl
  | number q =>
    refine .inr ⟨q, rfl, ?_⟩
    rintro rfl
    exact den_eq_one.mp h
  | _ => cases type <;> simp [Value.hasType, DataType.numeric] at h hnumeric

/-! ## Aggregates -/

theorem mem_extreme {side : Ordering} {values : List Value} (h : values ≠ []) : extreme side values ∈ values := by
  obtain ⟨value, values, rfl⟩ := List.exists_cons_of_ne_nil h
  have hfold : ∀ (rest : List Value) (best : Value), best ∈ value :: values → (∀ v ∈ rest, v ∈ value :: values) →
      rest.foldl (fun best v => if v.order best = some side then v else best) best ∈ value :: values := by
    intro rest
    induction rest with
    | nil => exact fun best hbest _ => hbest
    | cons v rest ih =>
      intro best hbest hrest
      rw [List.foldl_cons]
      refine ih _ ?_ fun w hw => hrest w (List.mem_cons_of_mem _ hw)
      split
      · exact hrest v List.mem_cons_self
      · exact hbest
  exact hfold values value List.mem_cons_self fun v hv => List.mem_cons_of_mem _ hv

section

variable {aggregation : Aggregation} {source type : DataType} {column : List Value}

/-- What `aggregation_output_type` accepts, and says. -/
theorem aggregationOutputType_ok (h : aggregationOutputType aggregation source = .ok type) :
    (aggregation.counts = true → type = .integer) ∧
      ((aggregation = .sum ∨ aggregation = .avg) → source.numeric = true) ∧
      (aggregation = .sum ∨ aggregation = .min ∨ aggregation = .max → type = source) ∧
      (aggregation = .avg → type = .number ∨ type = .decimal) := by
  cases aggregation <;> cases source <;>
    simp [aggregationOutputType, refuseIf, DataType.numeric, Aggregation.counts, bind, Except.bind, pure, Except.pure] at h ⊢ <;>
    first | exact h.symm | (subst h; decide)

theorem known_mem {value : Value} : value ∈ column.filter (· != .null) ↔ value ∈ column ∧ value ≠ .null := by
  simp [List.mem_filter]

/-- The numbers of a column of a numeric type are its values that are not null. -/
theorem numbers_spec (hcolumn : ∀ value ∈ column, value.hasType source = true) (hnumeric : source.numeric = true) :
    (∀ q : ℚ, q ∈ (column.filter (· != .null)).filterMap (·.number?) → source = .integer → ∃ n : ℤ, q = n) ∧
      ((∃ value ∈ column, value ≠ .null) → (column.filter (· != .null)).filterMap (·.number?) ≠ []) := by
  refine ⟨fun q hq => ?_, ?_⟩
  · obtain ⟨value, hvalue, hnumber⟩ := List.mem_filterMap.mp hq
    obtain ⟨hmem, hne⟩ := known_mem.mp hvalue
    obtain ⟨q', rfl, hwhole⟩ := (number_of_hasType (hcolumn value hmem) hnumeric).resolve_left hne
    obtain rfl : q' = q := Option.some.inj hnumber
    exact hwhole
  · rintro ⟨value, hmem, hne⟩
    obtain ⟨q, rfl, -⟩ := (number_of_hasType (hcolumn value hmem) hnumeric).resolve_left hne
    exact List.ne_nil_of_mem (List.mem_filterMap.mpr ⟨_, known_mem.mpr ⟨hmem, hne⟩, rfl⟩)

/-- An aggregate of a column is of the declared type, and no null where it counts or has a
    value that is not null. -/
theorem apply_meets (h : aggregationOutputType aggregation source = .ok type) (hcolumn : ∀ value ∈ column, value.hasType source = true)
    {nullable : Bool} (hpresent : nullable = false → aggregation.counts = true ∨ ∃ value ∈ column, value ≠ .null) :
    Meets type nullable (aggregation.apply column) := by
  obtain ⟨hcounts, hnumeric, hsame, havg⟩ := aggregationOutputType_ok h
  have hextreme : ∀ side, (nullable = false → ∃ value ∈ column, value ≠ .null) → type = source →
      Meets type nullable (extreme side (column.filter (· != .null))) := by
    rintro side hsome rfl
    by_cases hempty : column.filter (· != .null) = []
    · rw [hempty]
      refine ⟨rfl, fun hnullable => ?_⟩
      obtain ⟨value, hmem, hne⟩ := hsome hnullable
      exact (List.not_mem_nil (hempty ▸ known_mem.mpr ⟨hmem, hne⟩)).elim
    · obtain ⟨hmem, hne⟩ := known_mem.mp (mem_extreme hempty)
      exact ⟨hcolumn _ hmem, fun _ => hne⟩
  cases aggregation with
  | count =>
    rw [hcounts rfl]
    exact ⟨den_eq_one.mpr ⟨_, (Int.cast_natCast _).symm⟩, fun _ => Value.noConfusion⟩
  | countDistinct =>
    rw [hcounts rfl]
    exact ⟨den_eq_one.mpr ⟨_, (Int.cast_natCast _).symm⟩, fun _ => Value.noConfusion⟩
  | min => exact hextreme .lt (fun hnullable => (hpresent hnullable).resolve_left (by decide)) (hsame (.inr (.inl rfl)))
  | max => exact hextreme .gt (fun hnullable => (hpresent hnullable).resolve_left (by decide)) (hsame (.inr (.inr rfl)))
  | sum =>
    obtain ⟨hwhole, hne⟩ := numbers_spec hcolumn (hnumeric (.inl rfl))
    obtain rfl := hsame (.inl rfl)
    simp only [Aggregation.apply]
    split
    · rename_i hempty
      refine ⟨rfl, fun hnullable => ?_⟩
      exact (hne ((hpresent hnullable).resolve_left (by decide)) (List.isEmpty_iff.mp hempty)).elim
    · exact ⟨hasType_number (hnumeric (.inl rfl)) fun htype => whole_sum fun q hq => hwhole q hq htype, fun _ => Value.noConfusion⟩
  | avg =>
    obtain ⟨-, hne⟩ := numbers_spec hcolumn (hnumeric (.inr rfl))
    simp only [Aggregation.apply]
    split
    · rename_i hempty
      refine ⟨rfl, fun hnullable => ?_⟩
      exact (hne ((hpresent hnullable).resolve_left (by decide)) (List.isEmpty_iff.mp hempty)).elim
    · refine ⟨?_, fun _ => Value.noConfusion⟩
      rcases havg rfl with rfl | rfl <;> rfl

end

/-! ## Derived columns -/

/-- The declared type of an operand. -/
def ScalarOperand.dataType (available : Outputs) : ScalarOperand → Except PythonError DataType
  | field name => do return (← available.get name).dataType
  | literal (.integer _) => return .integer
  | literal (.decimal _) => return .decimal

/-- Whether an operand may be null. -/
def ScalarOperand.nullable (available : Outputs) : ScalarOperand → Except PythonError Bool
  | field name => do return (← available.get name).nullable
  | literal _ => return false

section

variable {nodeId : String} {expression : DeriveExpression} {available : Outputs} {type : DataType} {nullable : Bool} {engine : Engine}

theorem mapM_operands {β : Type} {f : ScalarOperand → Except PythonError β} {ys : List β} (h : expression.operands.mapM f = .ok ys) :
    ∃ l r, f expression.left = .ok l ∧ f expression.right = .ok r ∧ ys = [l, r] := by
  obtain ⟨l, rest, hl, hrest, rfl⟩ := List.forall₂_cons_left_iff.mp (mapM_eq_ok.mp h)
  obtain ⟨r, rfl, hr⟩ := forall₂_singleton hrest
  exact ⟨l, r, hl, hr, rfl⟩

theorem integer_of_numeric {type : DataType} (h : type.numeric = true) (hdecimal : DataType.decimal ≠ type) (hnumber : DataType.number ≠ type) :
    type = .integer := by
  cases type with
  | integer => rfl
  | number => exact (hnumber rfl).elim
  | decimal => exact (hdecimal rfl).elim
  | _ => cases h

/-- The type of a derived column, from those of its operands. -/
theorem derivedType_spec (h : deriveOutputType nodeId expression available = .ok type) :
    ∃ left right, expression.left.dataType available = .ok left ∧ expression.right.dataType available = .ok right ∧
      left.numeric = true ∧ right.numeric = true ∧ type.numeric = true ∧
      (type = .integer → left = .integer ∧ right = .integer ∧ expression.op ≠ .divide) := by
  obtain ⟨types, htypes, h⟩ := bind_eq_ok.mp h
  obtain ⟨left, right, hleft, hright, rfl⟩ := mapM_operands (f := ScalarOperand.dataType available) htypes
  simp only [bind_eq_ok, refuseIf_eq_ok, List.any_cons, List.any_nil, Bool.or_false, Bool.or_eq_false_iff, Bool.not_eq_false'] at h
  obtain ⟨_, ⟨hlnumeric, hrnumeric⟩, h⟩ := h
  refine ⟨left, right, hleft, hright, hlnumeric, hrnumeric, ?_⟩
  split at h
  · obtain rfl := Except.ok.inj h
    exact ⟨rfl, by intro habsurd; cases habsurd⟩
  rename_i hdecimal
  split at h
  · obtain rfl := Except.ok.inj h
    exact ⟨rfl, by intro habsurd; cases habsurd⟩
  rename_i hnumber
  obtain rfl := Except.ok.inj h
  simp only [List.contains_cons, List.contains_nil, Bool.or_false, Bool.or_eq_true, beq_iff_eq, not_or, decide_eq_true_eq] at hdecimal hnumber
  exact ⟨rfl, fun _ => ⟨integer_of_numeric hlnumeric hdecimal.1 hnumber.2.1, integer_of_numeric hrnumeric hdecimal.2 hnumber.2.2, hnumber.1⟩⟩

theorem derivedNullable_spec (h : deriveOutputNullable expression available = .ok nullable) :
    ∃ left right, expression.left.nullable available = .ok left ∧ expression.right.nullable available = .ok right ∧
      nullable = (left || right) := by
  obtain ⟨nullables, hnullables, h⟩ := bind_eq_ok.mp h
  obtain ⟨left, right, hleft, hright, rfl⟩ := mapM_operands (f := ScalarOperand.nullable available) hnullables
  refine ⟨left, right, hleft, hright, ?_⟩
  simpa using (Except.ok.inj h).symm

/-- A row that meets what is declared of its columns gives operands that meet their own. -/
theorem operand_meets {operand : ScalarOperand} (htype : operand.dataType available = .ok type)
    (hnullable : operand.nullable available = .ok nullable) {row : Row}
    (hrow : ∀ output ∈ available, Meets output.dataType output.nullable (row output.name).value) :
    Meets type nullable (operand.evaluate row) := by
  rcases operand with name | ⟨value | value⟩
  · obtain ⟨output, houtput, htype⟩ := bind_eq_ok.mp htype
    obtain ⟨other, hother, hnullable⟩ := bind_eq_ok.mp hnullable
    obtain rfl := Except.ok.inj (houtput.symm.trans hother)
    obtain rfl := Except.ok.inj htype
    obtain rfl := Except.ok.inj hnullable
    obtain ⟨hmem, rfl⟩ := Outputs.mem_of_get houtput
    exact hrow output hmem
  · obtain rfl := Except.ok.inj htype
    exact ⟨den_eq_one.mpr ⟨_, rfl⟩, fun _ => Value.noConfusion⟩
  · obtain rfl := Except.ok.inj htype
    exact ⟨rfl, fun _ => Value.noConfusion⟩

/-- A derived column meets what is declared of it, but for a null quotient. -/
theorem evaluate_meets (htype : deriveOutputType nodeId expression available = .ok type)
    (hnullable : deriveOutputNullable expression available = .ok nullable) {row : Row}
    (hrow : ∀ output ∈ available, Meets output.dataType output.nullable (row output.name).value)
    (hquotient : expression.op = .divide → nullable = false → ¬ NullQuotient engine expression row) :
    Meets type nullable (expression.evaluate engine row) := by
  obtain ⟨left, right, hleft, hright, hlnumeric, hrnumeric, hnumeric, hinteger⟩ := derivedType_spec htype
  obtain ⟨leftNullable, rightNullable, hleftNullable, hrightNullable, rfl⟩ := derivedNullable_spec hnullable
  obtain ⟨hltype, hlpresent⟩ := operand_meets hleft hleftNullable hrow
  obtain ⟨hrtype, hrpresent⟩ := operand_meets hright hrightNullable hrow
  rw [DeriveExpression.evaluate]
  rcases number_of_hasType hltype hlnumeric with hl | ⟨a, ha, hawhole⟩
  · have happly : expression.op.apply engine .null (expression.right.evaluate row) = .null := by cases expression.op <;> rfl
    rw [hl, happly]
    refine ⟨rfl, fun h => ?_⟩
    exact (hlpresent (Bool.or_eq_false_iff.mp h).1 hl).elim
  rcases number_of_hasType hrtype hrnumeric with hr | ⟨b, hb, hbwhole⟩
  · have happly : expression.op.apply engine (.number a) .null = .null := by cases expression.op <;> rfl
    rw [ha, hr, happly]
    refine ⟨rfl, fun h => ?_⟩
    exact (hrpresent (Bool.or_eq_false_iff.mp h).2 hr).elim
  rw [ha, hb]
  cases hop : expression.op with
  | add =>
    refine ⟨hasType_number hnumeric fun h => ?_, fun _ => Value.noConfusion⟩
    obtain ⟨n, rfl⟩ := hawhole (hinteger h).1
    obtain ⟨m, rfl⟩ := hbwhole (hinteger h).2.1
    exact ⟨n + m, by push_cast; rfl⟩
  | subtract =>
    refine ⟨hasType_number hnumeric fun h => ?_, fun _ => Value.noConfusion⟩
    obtain ⟨n, rfl⟩ := hawhole (hinteger h).1
    obtain ⟨m, rfl⟩ := hbwhole (hinteger h).2.1
    exact ⟨n - m, by push_cast; rfl⟩
  | multiply =>
    refine ⟨hasType_number hnumeric fun h => ?_, fun _ => Value.noConfusion⟩
    obtain ⟨n, rfl⟩ := hawhole (hinteger h).1
    obtain ⟨m, rfl⟩ := hbwhole (hinteger h).2.1
    exact ⟨n * m, by push_cast; rfl⟩
  | divide =>
    rw [DeriveOperator.apply]
    cases hresult : engine.quotient a b with
    | none =>
      refine ⟨rfl, fun h => ?_⟩
      exact (hquotient hop h ⟨a, b, ha, hb, hresult⟩).elim
    | some q => exact ⟨hasType_number hnumeric fun h => ((hinteger h).2.2 hop).elim, fun _ => Value.noConfusion⟩

end

/-! ## Nodes -/

theorem exists_find?_name {α : Type} {xs : List α} {key : α → String} {name : String} (h : (xs.map key).contains name = true) :
    ∃ x ∈ xs, xs.find? (key · == name) = some x ∧ key x = name := by
  obtain ⟨x, hx, rfl⟩ := List.mem_map.mp (List.contains_iff_mem.mp h)
  have hsome : (xs.find? (key · == key x)).isSome = true := List.find?_isSome.mpr ⟨x, hx, by simp⟩
  obtain ⟨found, hfound⟩ := Option.isSome_iff_exists.mp hsome
  exact ⟨found, List.mem_of_find?_eq_some hfound, hfound, by simpa using List.find?_some hfound⟩

section

variable {calendar : Calendar} {ontology : Ontology} {data : Data} {engine : Engine} {nodes done : List SQGNode} {node : SQGNode}
  {parents : List SQGNode} {walked walked' : Walked} {output : OutputField}

theorem select_sound (hdata : Conforms ontology data) {entity : String} {fields : List String}
    (hvisit : visitSelect ontology walked node entity fields = .ok walked') (houtput : output ∈ node.outputs) {row : Row}
    (hrow : row ∈ (data entity).zipIdx.map fun entry => readRow entity entry.1 entry.2) :
    Meets output.dataType output.nullable (row output.name).value := by
  simp only [visitSelect, bind_eq_ok, pure_eq_ok] at hvisit
  obtain ⟨_, -, _, -, _, -, _, hselected, -⟩ := hvisit
  have hcheck := forM_eq_ok.mp hselected output houtput
  simp only [checkSelected, bind_eq_ok, invalidIf, refuseIf_eq_ok, bne_eq_false_iff_eq] at hcheck
  obtain ⟨known, hknown, field, hfield, _, htype, hnullable⟩ := hcheck
  have hdeclared : ontology.fieldOf entity output.name = some field := by
    rw [Ontology.fieldOf, item_eq_ok.mp hknown]
    exact item_eq_ok.mp hfield
  obtain ⟨⟨record, i⟩, hentry, rfl⟩ := List.mem_map.mp hrow
  rw [htype, hnullable]
  exact hdata entity output.name field hdeclared record (List.fst_mem_of_mem_zipIdx hentry)

/-- A measure over a group of rows that hold what the input declares. -/
theorem measure_sound (hchecked : Checked calendar done node parents) (hnodup : node.outputNames.Nodup)
    (hkept : Kept ontology nodes done walked) (hvisit : visitOperator ontology walked node = .ok walked') {params : AggregateParams}
    (hparams : node.params = .aggregate params) (houtput : output ∈ node.outputs)
    (hcomputed : (params.measures.map (·.name)).contains output.name = true) {parent : SQGNode} (hparent : parents = [parent])
    {rows group : List Row} (hrows : SoundRows parent rows) (hgroup : group ∈ groups params.groupBy rows) :
    Meets output.dataType output.nullable (aggregateRow ontology params group output.name).value := by
  obtain ⟨measure, hmeasure, hfind, hname⟩ := exists_find?_name hcomputed
  obtain ⟨inherited, bindings, hbindings, hchecks⟩ := visitOperator_checks hvisit
  simp only [checkOperator, hparams] at hchecks
  obtain ⟨metric, binding, hmeasured⟩ := checkMeasure_spec (forM_eq_ok.mp hchecks measure hmeasure)
  obtain ⟨declared, field, hdeclared, hfield, htype, hnullable⟩ := hmeasured.output
  obtain ⟨hmem, hdname⟩ := mem_of_firstOf hdeclared
  obtain rfl := output_unique hnodup houtput hmem (hdname.trans hname)
  -- the column that the measure reads has the type of the metric's field
  obtain ⟨entries, found, hentries, hfound, hbinding⟩ := hmeasured.source
  have hfirst : parents[0]? = some parent := by
    rw [hparent]
    rfl
  obtain ⟨-, hof⟩ := hkept.input hchecked hbindings hentries hfirst
  obtain ⟨_, hone, -, hsources, -⟩ := hchecked.aggregate hparams
  obtain rfl := (List.cons.inj (hparent.symm.trans hone)).1
  obtain ⟨source, hsource, hsname⟩ := List.mem_map.mp (hsources measure hmeasure)
  have hbound := (hof source hsource found (hsname ▸ hfound)).2 binding hbinding
  obtain ⟨field', hfield', hsourceType⟩ := hbound.declared
  rw [hmeasured.field.1, hmeasured.field.2, hfield] at hfield'
  obtain rfl := Option.some.inj hfield'
  obtain ⟨hsub, hne⟩ := mem_groups hgroup
  have hmeets : ∀ row ∈ group, Meets source.dataType source.nullable (row measure.source).value := by
    intro row hrow
    rw [← hsname]
    exact hrows row (hsub row hrow) source hsource
  rw [aggregateRow, hfind]
  simp only [hmeasured.named]
  refine apply_meets htype ?_ fun hpresent => ?_
  · intro value hvalue
    obtain ⟨row, hrow, rfl⟩ := List.mem_map.mp hvalue
    rw [hsourceType]
    exact (hmeets row hrow).type
  · rw [hnullable, Bool.and_eq_false_iff, Bool.not_eq_false', Bool.or_eq_false_iff] at hpresent
    refine hpresent.imp id fun hboth => ?_
    obtain ⟨hbindingNullable, hkeys⟩ := hboth
    have hpresentSource : source.nullable = false := by
      rw [← Bool.not_eq_true]
      intro htrue
      rw [hbound.nullable htrue] at hbindingNullable
      cases hbindingNullable
    have hkeys : params.groupBy ≠ [] := by
      rintro hempty
      rw [hempty] at hkeys
      cases hkeys
    obtain ⟨row, rest, rfl⟩ := List.exists_cons_of_ne_nil (hne hkeys)
    exact ⟨_, List.mem_map_of_mem List.mem_cons_self, (hmeets row List.mem_cons_self).present hpresentSource⟩

/-- A column that a PIVOT makes may be null, and is of the type of its aggregate. -/
theorem pivot_sound (hchecked : Checked calendar done node parents) {params : PivotParams} (hparams : node.params = .pivot params)
    (houtput : output ∈ node.outputs) (hcomputed : params.expectedColumns.contains output.name = true) {parent : SQGNode}
    (hparent : parents = [parent]) {rows group : List Row} (hrows : SoundRows parent rows) (hgroup : group ∈ groups params.index rows) :
    Meets output.dataType output.nullable (pivotRow engine params group output.name).value := by
  subst hparent
  obtain ⟨_, source, hone, hvmem, hvname, htype, hon⟩ := hchecked.pivoted hparams houtput hcomputed
  obtain rfl := (List.cons.inj hone).1
  rw [hon, pivotRow, if_pos hcomputed]
  refine apply_meets htype ?_ (by intro habsurd; cases habsurd)
  intro value hpivoted
  obtain ⟨row, hrow, rfl⟩ := List.mem_map.mp hpivoted
  have hrow := (mem_groups hgroup).1 row (List.mem_filter.mp hrow).1
  rw [← hvname]
  exact (hrows row hrow source hvmem).type

/-- A derived column, but for a null quotient. -/
theorem derive_sound (hchecked : Checked calendar done node parents) {expressions : List DeriveExpression}
    (hparams : node.params = .derive expressions) (houtput : output ∈ node.outputs)
    (hcomputed : (expressions.map (·.name)).contains output.name = true) {parent : SQGNode} (hparent : parents = [parent])
    {rows : List Row} (hrows : SoundRows parent rows) {row : Row} (hrow : row ∈ rows)
    (hquotient : ∀ expression ∈ expressions, expression.op = .divide → output.name = expression.name → output.nullable = false →
      ¬ NullQuotient engine expression row) :
    Meets output.dataType output.nullable (deriveRow engine expressions row output.name).value := by
  subst hparent
  obtain ⟨expression, hmem, hfind, hname⟩ := exists_find?_name hcomputed
  obtain ⟨_, hone, htype, hnullable⟩ := hchecked.derived hparams houtput hmem hname
  obtain rfl := (List.cons.inj hone).1
  rw [deriveRow, hfind]
  refine evaluate_meets htype hnullable (hrows row hrow) fun hdivide hpresent => ?_
  exact hquotient expression hmem hdivide hname.symm hpresent

/-- A node whose inputs' rows are sound has sound rows, if no null quotient is declared not to be
    null. -/
theorem evaluateNode_sound (hchecked : Checked calendar done node parents) (hnodup : node.outputNames.Nodup)
    (hkept : Kept ontology nodes done walked) (hvisit : visit ontology walked node = .ok walked') (hdata : Conforms ontology data)
    {inputs : List (List Row)} (hinputs : List.Forall₂ SoundRows parents inputs)
    (hquotient : ∀ expressions, node.params = .derive expressions → ∀ expression ∈ expressions, expression.op = .divide →
      ∀ output ∈ node.outputs, output.name = expression.name → output.nullable = false →
        ∀ rows ∈ inputs, ∀ row ∈ rows, ¬ NullQuotient engine expression row) :
    SoundRows node (evaluateNode engine ontology data node inputs) := by
  intro row hrow output houtput
  have hname : output.name ∈ node.outputNames := List.mem_map_of_mem houtput
  cases hfrom : passedFrom node.params output.name with
  | some source =>
    obtain ⟨i, column⟩ := source
    obtain ⟨parent, declared, hpassed⟩ := hchecked.passed houtput hfrom
    rw [hpassed.type, hpassed.nullable]
    rcases evaluateNode_passed hchecked hname hfrom hrow with ⟨rows, hrows, r, hr, hcell⟩ | ⟨hpad, hpads⟩
    · obtain ⟨other, hother, hsound⟩ := getElem?_of_forall₂ hinputs hrows
      obtain rfl := Option.some.inj (hother.symm.trans hpassed.input)
      have hmeets := hsound r hr declared hpassed.mem
      rw [hpassed.name, ← hcell] at hmeets
      exact ⟨hmeets.type, fun hnullable => hmeets.present (Bool.or_eq_false_iff.mp hnullable).1⟩
    · rw [hpad, hpads, Bool.or_true]
      exact ⟨rfl, by intro habsurd; cases habsurd⟩
  | none =>
    cases hp : node.params with
    | select entity fields =>
      simp only [visit, hp] at hvisit
      simp only [evaluateNode, hp] at hrow
      exact select_sound hdata hvisit houtput hrow
    | filter predicate => simp [hp, passedFrom] at hfrom
    | sort keys => simp [hp, passedFrom] at hfrom
    | project fields => simp [hp, passedFrom] at hfrom
    | aggregate params =>
      obtain ⟨parent, rfl, -⟩ := hchecked.aggregate hp
      obtain ⟨rows, rfl, hrows⟩ := forall₂_singleton hinputs
      simp only [visit, hp] at hvisit
      simp only [evaluateNode, hp, List.mem_map] at hrow
      obtain ⟨group, hgroup, rfl⟩ := hrow
      have hcomputed : (params.measures.map (·.name)).contains output.name = true := by
        rw [hp, passedFrom] at hfrom
        split at hfrom
        · assumption
        · cases hfrom
      exact measure_sound hchecked hnodup hkept hvisit hp houtput hcomputed rfl hrows hgroup
    | pivot params =>
      obtain ⟨parent, rfl, -⟩ := hchecked.pivot hp
      obtain ⟨rows, rfl, hrows⟩ := forall₂_singleton hinputs
      simp only [evaluateNode, hp, List.mem_map] at hrow
      obtain ⟨group, hgroup, rfl⟩ := hrow
      have hcomputed : params.expectedColumns.contains output.name = true := by
        rw [hp, passedFrom] at hfrom
        split at hfrom
        · assumption
        · cases hfrom
      exact pivot_sound hchecked hp houtput hcomputed rfl hrows hgroup
    | derive expressions =>
      obtain ⟨parent, rfl, -⟩ := hchecked.derive hp
      obtain ⟨rows, rfl, hrows⟩ := forall₂_singleton hinputs
      simp only [evaluateNode, hp, List.mem_map] at hrow
      obtain ⟨r, hr, rfl⟩ := hrow
      have hcomputed : (expressions.map (·.name)).contains output.name = true := by
        rw [hp, passedFrom] at hfrom
        split at hfrom
        · assumption
        · cases hfrom
      refine derive_sound hchecked hp houtput hcomputed rfl hrows hr fun expression hmem hdivide hsame hpresent => ?_
      exact hquotient expressions hp expression hmem hdivide output houtput hsame hpresent rows List.mem_cons_self r hr
    | join params =>
      -- every output of a join is a column of an input
      obtain ⟨_, _, -, -, -, -, hnames, -⟩ := hchecked.join hp
      rw [hp, passedFrom, Option.map_eq_none_iff] at hfrom
      obtain ⟨projection, hprojection, heq⟩ := List.mem_map.mp (hnames ▸ hname)
      exact (List.find?_eq_none.mp hfrom projection hprojection (beq_iff_eq.mpr heq)).elim

end

/-! ## The graph -/

section

variable {calendar : Calendar} {sqg : SemanticQueryGraph} {ontology : Ontology} {engine : Engine} {data : Data}

theorem sound_of_noNullQuotient (hsqg : sqg.Accepted calendar) (hvalid : validateSqg sqg ontology = .ok ()) (hdata : Conforms ontology data)
    (h : NoNullQuotient sqg engine ontology data) :
    ∀ before after, sqg.nodes = before ++ after → ∀ node ∈ before, SoundRows node (rowsOf engine ontology data sqg.nodes node.id) := by
  intro before
  induction before using List.reverseRecOn with
  | nil => exact fun _ _ node hnode => (List.not_mem_nil hnode).elim
  | append_singleton before last ih =>
    intro after hnodes node hnode
    have hsplit : sqg.nodes = before ++ last :: after := by rw [hnodes, List.append_assoc, List.singleton_append]
    have hbefore := ih (last :: after) hsplit
    rcases List.mem_append.mp hnode with hnode | hnode
    · exact hbefore node hnode
    obtain rfl := List.mem_singleton.mp hnode
    have hmem : node ∈ sqg.nodes := by simp [hsplit]
    obtain ⟨walked, walked', -, hkept, hvisit⟩ := kept hsqg hvalid hsplit
    obtain ⟨-, parents, hchecked⟩ := hsqg.checked hsplit
    rw [rowsOf_node engine ontology data hsplit hsqg.nodup hchecked.input_mem]
    refine evaluateNode_sound hchecked (hsqg.outputs_nodup hmem) hkept hvisit hdata ?_ ?_
    · rw [inputs_eq_ids hchecked, List.map_map, List.forall₂_map_right_iff, List.forall₂_same]
      intro parent hparent
      obtain ⟨_, -, hdone, -⟩ := mem_of_forall₂ hchecked.inputs hparent
      exact hbefore parent hdone
    · intro expressions hparams expression hexpression hdivide output houtput hname hpresent rows hrows row hrow
      obtain ⟨input, hinput, rfl⟩ := List.mem_map.mp hrows
      exact h node hmem expressions hparams expression hexpression hdivide output houtput hname hpresent input hinput row hrow

/-- Over rows that conform to the ontology, the rows of every node of an accepted graph are of
    the declared types, with no null where none is declared, just if no row comes to a null
    quotient of two numbers that is declared not to be null. -/
theorem sound_iff (hsqg : sqg.Accepted calendar) (hvalid : validateSqg sqg ontology = .ok ()) (hdata : Conforms ontology data) :
    (∀ node ∈ sqg.nodes, SoundRows node (rowsOf engine ontology data sqg.nodes node.id)) ↔ NoNullQuotient sqg engine ontology data := by
  refine ⟨fun hsound => ?_, fun h => sound_of_noNullQuotient hsqg hvalid hdata h sqg.nodes [] (by simp)⟩
  intro node hnode expressions hparams expression hexpression hdivide output houtput hname hpresent input hinput row hrow ⟨a, b, ha, hb, hresult⟩
  obtain ⟨done, parents, hchecked, hrows⟩ := hsqg.rows engine ontology data hnode
  obtain ⟨parent, rfl, -, -, hdistinct, -⟩ := hchecked.derive hparams
  have hinputs := inputs_eq_ids hchecked
  obtain rfl : input = parent.id := by simpa [hinputs] using hinput
  -- the row of the null quotient has a null in the output
  have hnull : (deriveRow engine expressions row output.name).value = .null := by
    have hfind : expressions.find? (·.name == output.name) = some expression := by
      refine find?_eq_of_unique hexpression (by simp [hname]) fun other hother heq => ?_
      exact List.inj_on_of_nodup_map hdistinct hother hexpression ((beq_iff_eq.mp heq).trans hname)
    rw [deriveRow, hfind]
    simp only [DeriveExpression.evaluate, hdivide, ha, hb, DeriveOperator.apply, hresult, Option.elim_none]
  have hmem : deriveRow engine expressions row ∈ rowsOf engine ontology data sqg.nodes node.id := by
    rw [hrows, hinputs]
    simp only [evaluateNode, hparams, List.map_cons, List.map_nil]
    exact List.mem_map_of_mem hrow
  exact (hsound node hnode _ hmem output houtput).present hpresent hnull

end

/-! ## A ratio -/

/-- What everyone earns for each unit of their own number. -/
def ratios : SemanticQueryGraph where
  ontologyVersion := "staff-1"
  nodes := [
    ⟨"staff", [], [⟨"id", .integer, false⟩, ⟨"salary", .decimal, false⟩], .select "employee" ["id", "salary"]⟩,
    ⟨"ratios", ["staff"], [⟨"id", .integer, false⟩, ⟨"salary", .decimal, false⟩, ⟨"ratio", .decimal, false⟩],
      .derive [⟨"ratio", .divide, .field "salary", .field "id"⟩]⟩]
  root := "ratios"

theorem ratios_accepted : ratios.Accepted noCalendar where
  outputs := by
    intro node hnode
    simp only [ratios, List.mem_cons, List.not_mem_nil, or_false] at hnode
    rcases hnode with rfl | rfl <;> rfl
  predicates := by
    intro node hnode predicate hparams
    simp only [ratios, List.mem_cons, List.not_mem_nil, or_false] at hnode
    rcases hnode with rfl | rfl <;> cases hparams
  graph := rfl

/-- An employee of number zero. -/
def newcomer : Data := fun _ => [fun field => if field = "manager" then .null else .number 0]

theorem newcomer_conforms : Conforms staff newcomer := by
  intro entity field declared hdeclared record hrecord
  obtain rfl := List.mem_singleton.mp hrecord
  obtain ⟨fields, hfields, hfield⟩ := Option.bind_eq_some_iff.mp hdeclared
  obtain ⟨rfl, rfl⟩ := Prod.mk.inj (List.mem_singleton.mp (mem_of_lookup hfields))
  have hmem := mem_of_lookup hfield
  simp only [List.map_cons, List.map_nil, List.mem_cons, List.not_mem_nil, or_false, Prod.mk.injEq] at hmem
  rcases hmem with ⟨rfl, rfl⟩ | ⟨rfl, rfl⟩ | ⟨rfl, rfl⟩
  · exact ⟨rfl, fun _ => Value.noConfusion⟩
  · exact ⟨rfl, by intro habsurd; cases habsurd⟩
  · exact ⟨rfl, fun _ => Value.noConfusion⟩

theorem ratios_unsound :
    ¬ ∀ node ∈ ratios.nodes, SoundRows node (rowsOf plainEngine staff newcomer ratios.nodes node.id) := by
  have hvalid : validateSqg ratios staff = .ok () := rfl
  rw [sound_iff ratios_accepted hvalid newcomer_conforms]
  intro h
  have hrow : readRow "employee" _ 0 ∈ rowsOf plainEngine staff newcomer ratios.nodes "staff" := List.mem_cons_self
  have hratios : ratios.nodes[1] ∈ ratios.nodes := List.getElem_mem _
  have hratio : (⟨"ratio", .decimal, false⟩ : OutputField) ∈ ratios.nodes[1].outputs :=
    List.mem_cons_of_mem _ (List.mem_cons_of_mem _ List.mem_cons_self)
  exact h _ hratios _ rfl _ List.mem_cons_self rfl _ hratio rfl rfl _ List.mem_cons_self _ hrow ⟨0, 0, rfl, rfl, rfl⟩

end DataNexus.SemanticCore
