/-
  DataNexus.Semantic.Governance — what an accepted graph may touch.

  Concepts are checked where a SELECT or a JOIN names them; everything after rests on what
  the columns carry. `Checked` gathers what a clean node has passed beyond its flow. From
  it, over an accepted graph:
  - `Origin` traces a column back to the source columns it is computed from; all of them
    are governed concepts of a governed entity (`Accepted.origin_governed`).
  - The result does not depend on anything else in the database
    (`Accepted.tables_of_governed`).
  - A column that still names its source concept holds that concept's values, or the null
    of an unmatched row (`Accepted.holds`), so a join matches the two fields of its relation.
-/

import DataNexus.Semantic.Constraints

namespace DataNexus.Semantic

open Lib Noted Relational

/-! ## What a node reads -/

def Operand.columns : Operand → List String
  | .column name => [name]
  | .literal .. => []

def Expression.columns : Expression → List String
  | .operand single => single.columns
  | .binary _ left right => left.columns ++ right.columns

/-- The columns a node names, with the position of the input they are read from. -/
def NodeParameters.reads : NodeParameters → List (Nat × String)
  | .select .. => []
  | .filter predicate => [(0, predicate.column)]
  | .aggregate groupBy measures => (groupBy ++ measures.map (·.source)).map (0, ·)
  | .pivot index column value _ _ => (index ++ [column, value]).map (0, ·)
  | .derive columns => (columns.flatMap (·.expression.columns)).map (0, ·)
  | .project columns => columns.map (0, ·.source)
  | .sort keys => keys.map (0, ·.column)
  | .join _ leftKey rightKey _ => [(0, leftKey), (1, rightKey)]

/-- A node computes its column `output` from its input's column `input`. -/
def NodeParameters.Feeds (input output : String) : NodeParameters → Prop
  | .select .. => False
  | .filter _ | .sort _ | .join .. => input = output
  | .aggregate groupBy measures =>
    (input = output ∧ output ∈ groupBy) ∨ ∃ measure ∈ measures, measure.source = input ∧ measure.output = output
  | .pivot index column value values _ =>
    (input = output ∧ output ∈ index) ∨ (output ∈ values ∧ (input = column ∨ input = value))
  | .derive columns =>
    input = output ∨ ∃ column ∈ columns, input ∈ column.expression.columns ∧ column.output = output
  | .project columns => ∃ column ∈ columns, column.source = input ∧ column.aliasName = output

/-- The column `name` of the node is computed from the source column `source` of the entity. -/
inductive Origin (sqg : SQG) : (node name entityId source : String) → Prop
  | select {node : SQGNode} {entityId name : String} {columns : List String} (hn : node ∈ sqg.nodes)
      (hp : node.parameters = .select entityId columns) (hc : name ∈ columns) : Origin sqg node.id name entityId name
  | step {node : SQGNode} {d input output entityId source : String} (hn : node ∈ sqg.nodes) (hd : d ∈ node.dependencies)
      (hf : node.parameters.Feeds input output) (ho : Origin sqg d input entityId source) :
      Origin sqg node.id output entityId source

namespace SQGValidator

variable {v : SQGValidator} {context : SemanticContext}

/-! ## Governed concepts -/

variable (v context) in
/-- The id is one of the registry's concepts of the kind, enabled, allowed, and selected. -/
def Governed (kind : ConceptKind) (id : String) : Prop :=
  v.registry.conceptState id kind = some (true, .allow) ∧ id ∈ context.selected

variable (v context) in
/-- A governed field or metric of the entity. -/
def SourceColumn (entityId name : String) : Prop :=
  (∃ field, v.registry.field? name = some field ∧ field.entityId = entityId ∧ Governed v context .field name) ∨
    ∃ metric, v.registry.metric? name = some metric ∧ metric.entityId = entityId ∧ Governed v context .metric name

theorem validateConcept_clean {id path : String} {kind : ConceptKind}
    (h : (v.validateConcept id kind context.selected path).notes = []) : Governed v context kind id := by
  unfold validateConcept at h
  cases hs : v.registry.conceptState id kind with
  | none => simp [hs] at h
  | some state =>
    obtain ⟨enabled, policy⟩ := state
    simp only [hs, notes_bind, List.append_eq_nil_iff, notes_noteIf] at h
    refine ⟨?_, by simpa using h.2⟩
    rw [hs]
    cases enabled <;> cases policy <;> simp_all

theorem selectColumn_governed {entityId path : String} {state : List (String × Column) × List String}
    {item : String × Nat} (h : (v.selectColumn entityId context.selected path state item).notes = []) :
    SourceColumn v context entityId item.1 := by
  unfold selectColumn at h
  by_cases hdup : hasColumn state.1 item.1 = true
  · simp [hdup] at h
  simp only [hdup, Bool.false_eq_true, if_false] at h
  cases hf : v.registry.field? item.1 with
  | some field =>
    simp only [hf, notes_bind, List.append_eq_nil_iff, notes_noteIf, decide_eq_false_iff_not, not_not] at h
    exact .inl ⟨field, hf, h.2.1, validateConcept_clean h.1⟩
  | none =>
    cases hm : v.registry.metric? item.1 with
    | some metric =>
      simp only [hf, hm, notes_bind, List.append_eq_nil_iff, notes_noteIf, decide_eq_false_iff_not, not_not] at h
      exact .inr ⟨metric, hm, h.2.1, validateConcept_clean h.1⟩
    | none => simp [hf, hm] at h

theorem selectFlow_governed {entityId path : String} {columns : List String}
    (h : (v.selectFlow entityId columns path context.selected).notes = []) :
    Governed v context .entity entityId ∧ ∀ name ∈ columns, SourceColumn v context entityId name := by
  simp only [selectFlow, notes_bind, notes_pure, List.append_nil, List.append_eq_nil_iff] at h
  refine ⟨validateConcept_clean h.1, ?_⟩
  have := foldlM_clean h.2 (P := fun done _ => ∀ name ∈ done.map (·.1), SourceColumn v context entityId name)
    (by simp)
    (fun done x rest t _ hp hx name hn => by
      rw [List.map_append, List.mem_append] at hn
      rcases hn with hn | hn
      · exact hp name hn
      · obtain rfl : name = x.1 := by simpa using hn
        exact selectColumn_governed hx)
  simpa using this

/-! ## Compared literals -/

variable (v) in
/-- The scalar is the id of an enabled member of the field. -/
def EnabledMember (fieldId : String) (value : Scalar) : Prop :=
  ∃ id member, value = .text id ∧ v.registry.member? id = some (fieldId, member) ∧ member.enabled = true

theorem validateMember_enabled {domain path : String} {value : Scalar}
    (h : (v.validateMember domain (some value) path).notes = []) : EnabledMember v domain value := by
  unfold validateMember at h
  cases value with
  | text id =>
    cases hm : v.registry.member? id with
    | none => simp [hm] at h
    | some found =>
      obtain ⟨fieldId, member⟩ := found
      by_cases hd : fieldId = domain
      · subst hd
        simp only [hm, ne_eq, not_true, if_false, notes_noteIf] at h
        exact ⟨id, member, rfl, hm, by simpa using h⟩
      · simp [hm, hd] at h
  | int | float | bool => simp at h

theorem validateValue_enabled {column : Column} {operator : PredicateOperator} {value : Scalar} {path fieldId : String}
    (h : (v.validateValue column operator (some value) path).notes = [])
    (hd : column.memberDomainFieldId = some fieldId) : EnabledMember v fieldId value := by
  unfold validateValue at h
  simp only [hd] at h
  split at h
  · simp at h
  · simp only [notes_bind, List.append_eq_nil_iff] at h
    exact validateMember_enabled h.2.2

/-- On a column with a member domain a predicate names literals, all of them enabled
    members of the domain. -/
theorem validatePredicate_enabled {predicate : Predicate} {source : Flow} {path : String}
    (h : (v.validatePredicate predicate source path).notes = []) {column : Column}
    (hc : source.column? predicate.column = some column) {fieldId : String}
    (hd : column.memberDomainFieldId = some fieldId) :
    scalarsOf predicate.value ≠ [] ∧ ∀ value ∈ scalarsOf predicate.value, EnabledMember v fieldId value := by
  obtain ⟨found, hf, hvalid⟩ := validatePredicate_clean h
  obtain rfl : found = column := Option.some.inj (hf.symm.trans hc)
  obtain ⟨name, operator, value⟩ := predicate
  unfold validatePredicate at h
  simp only [notes_bind, List.append_eq_nil_iff, requireColumn_value] at h
  simp only at hc
  simp only [hc, notes_bind, List.append_eq_nil_iff] at h
  have hrest := h.2.2
  rcases hvalid.member fieldId hd with ⟨ho, x, hx, _⟩ | ⟨ho, xs, hxs, hne, _⟩
  · simp only at ho hx
    subst ho hx
    refine ⟨by simp [scalarsOf], ?_⟩
    intro y hy
    obtain rfl : y = x := by simpa [scalarsOf] using hy
    exact validateValue_enabled hrest hd
  · simp only at ho hxs
    subst ho hxs
    refine ⟨hne, ?_⟩
    intro y hy
    cases xs with
    | nil => exact absurd rfl hne
    | cons first rest =>
      obtain ⟨i, hi⟩ := exists_mem_zipIdx (show y ∈ first :: rest from hy)
      exact validateValue_enabled (forM_clean.mp hrest _ hi) hd

/-! ## Joins -/

/-- The two keys of a join and the relation's fields they carry. -/
theorem joinFlow_governed {relationId leftKey rightKey path : String} {joinType : JoinType} {left right : Flow}
    (h : (v.joinFlow relationId leftKey rightKey joinType left right path context.selected).notes = []) :
    Governed v context .relation relationId ∧ ∃ relation leftColumn rightColumn,
      v.registry.relation? relationId = some relation ∧
      left.column? leftKey = some leftColumn ∧ leftColumn.sourceConceptId = some relation.fromFieldId ∧
      right.column? rightKey = some rightColumn ∧ rightColumn.sourceConceptId = some relation.toFieldId := by
  unfold joinFlow at h
  simp only [notes_bind, List.append_eq_nil_iff, requireColumn_value] at h
  obtain ⟨hconcept, hl, hr, hrest⟩ := h
  have hgoverned := validateConcept_clean hconcept
  obtain ⟨leftColumn, hl⟩ := requireColumn_clean hl
  obtain ⟨rightColumn, hr⟩ := requireColumn_clean hr
  refine ⟨hgoverned, ?_⟩
  cases hrelation : v.registry.relation? relationId with
  | none =>
    have := hgoverned.1
    simp [OntologyDocument.conceptState, hrelation] at this
  | some relation =>
    simp only [hrelation, hl, hr, notes_bind, List.append_eq_nil_iff] at hrest
    have hkeys := hrest.1
    simp only [validateRelation, notes_bind, List.append_eq_nil_iff, notes_noteIf, Option.any_some,
      Bool.or_eq_false_iff, decide_eq_false_iff_not, not_not] at hkeys
    exact ⟨relation, leftColumn, rightColumn, rfl, hl, hkeys.2.1.1, hr, hkeys.2.1.2⟩

/-! ## Every column a node names -/

theorem aggregateFlow_reads {groupBy : List String} {measures : List AggregateMeasure} {source : Flow} {path : String}
    (h : (aggregateFlow groupBy measures source path).notes = []) :
    ∀ name ∈ groupBy ++ measures.map (·.source), ∃ column, source.column? name = some column := by
  obtain ⟨kept, rest, -, hkept, hrest⟩ := (aggregateFlow_clean h).split
  intro name hn
  rcases List.mem_append.mp hn with hn | hn
  · obtain ⟨i, hi, rfl⟩ := List.mem_iff_getElem.mp hn
    exact ⟨_, (hkept.get hi (hkept.length_eq ▸ hi)).2⟩
  · obtain ⟨measure, hm, rfl⟩ := List.mem_map.mp hn
    obtain ⟨i, hi, rfl⟩ := List.mem_iff_getElem.mp hm
    obtain ⟨-, column, hc, -⟩ := hrest.get hi (hrest.length_eq ▸ hi)
    exact ⟨column, hc⟩

/-- The columns of a pivot, and which of them still name a source concept. -/
theorem pivotFlow_reads {index : List String} {column value : String} {values : List String} {source : Flow}
    {path : String} (h : (pivotFlow index column value values source path).notes = []) :
    (∀ name ∈ index ++ [column, value], ∃ found, source.column? name = some found) ∧
      ∀ c ∈ (pivotFlow index column value values source path).value.columns, c.2.sourceConceptId ≠ none →
        c.1 ∈ index ∧ source.column? c.1 = some c.2 := by
  simp only [pivotFlow, notes_bind, notes_pure, List.append_nil, List.append_eq_nil_iff] at h
  obtain ⟨hidx, hcolumn, hvalue, hval, -⟩ := h
  have hi := foldlM_clean hidx
    (P := fun done state => (∀ name ∈ done.map (·.1), ∃ found, source.column? name = some found) ∧
      ∀ c ∈ state.1, c.2.sourceConceptId ≠ none → c.1 ∈ done.map (·.1) ∧ source.column? c.1 = some c.2)
    ⟨by simp, by simp⟩
    (fun done x rest t _ hp hx => by
      obtain ⟨col, enforcing, hc, ht⟩ := indexColumn_clean hx
      rw [hc]
      refine ⟨fun name hn => ?_, fun c hc hs => ?_⟩
      · rw [List.map_append, List.mem_append] at hn
        rcases hn with hn | hn
        · exact hp.1 name hn
        · obtain rfl : name = x.1 := by simpa using hn
          exact ⟨col, ht⟩
      · rw [List.map_append]
        rcases mem_setColumn hc with rfl | hc
        · exact ⟨by simp, ht⟩
        · obtain ⟨hin, hsource⟩ := hp.2 c hc hs
          exact ⟨List.mem_append_left _ hin, hsource⟩)
  have hv := foldlM_clean hval
    (P := fun _ columns => ∀ c ∈ columns, c.2.sourceConceptId ≠ none → c.1 ∈ index ∧ source.column? c.1 = some c.2)
    (by simpa using hi.2)
    (fun done x rest t _ hp hx c hc hs => by
      rw [valueColumn_clean hx] at hc
      rcases List.mem_append.mp hc with hc | hc
      · exact hp c hc hs
      · rw [List.mem_singleton.mp hc] at hs
        exact absurd rfl hs)
  refine ⟨?_, hv⟩
  intro name hn
  rcases List.mem_append.mp hn with hn | hn
  · exact hi.1 name (by simpa using hn)
  · rcases List.mem_cons.mp hn with rfl | hn
    · exact requireColumn_clean hcolumn
    · rw [List.mem_singleton.mp hn]
      exact requireColumn_clean hvalue

theorem operandInfo_reads {source : Flow} {path : String} {operand : Operand}
    (h : (v.operandInfo source path operand).notes = []) :
    ∀ name ∈ operand.columns, ∃ column, source.column? name = some column := by
  cases operand with
  | column name =>
    intro other ho
    rw [List.mem_singleton.mp ho]
    exact requireColumn_clean h
  | literal => simp [Operand.columns]

theorem expressionInfo_reads {source : Flow} {path : String} {expression : Expression}
    (h : (v.expressionInfo source path expression).notes = []) :
    ∀ name ∈ expression.columns, ∃ column, source.column? name = some column := by
  cases expression with
  | operand operand => exact operandInfo_reads h
  | binary operator left right =>
    simp only [expressionInfo, notes_bind, List.append_eq_nil_iff] at h
    intro name hn
    rcases List.mem_append.mp hn with hn | hn
    · exact operandInfo_reads h.1 name hn
    · exact operandInfo_reads h.2.1 name hn

theorem deriveFlow_reads {columns : List DerivedColumn} {source : Flow} {path : String}
    (h : (v.deriveFlow columns source path).notes = []) :
    (∀ name ∈ columns.flatMap (·.expression.columns), ∃ column, source.column? name = some column) ∧
      ∀ c ∈ (v.deriveFlow columns source path).value.columns, c.2.sourceConceptId ≠ none → c ∈ source.columns := by
  simp only [deriveFlow, notes_bind, notes_pure, List.append_nil] at h
  have := foldlM_clean h
    (P := fun done out =>
      (∀ name ∈ (done.map (·.1)).flatMap (·.expression.columns), ∃ column, source.column? name = some column) ∧
        ∀ c ∈ out, c.2.sourceConceptId ≠ none → c ∈ source.columns)
    ⟨by simp, fun _ hc _ => hc⟩
    (fun done x rest t _ hp hx => by
      unfold derivedColumn at hx ⊢
      by_cases hdup : hasColumn t x.1.output = true
      · simp [hdup] at hx
      simp only [hdup, Bool.false_eq_true, if_false, notes_bind, List.append_eq_nil_iff] at hx ⊢
      refine ⟨fun name hn => ?_, fun c hc hs => ?_⟩
      · rw [List.map_append, List.flatMap_append, List.mem_append] at hn
        rcases hn with hn | hn
        · exact hp.1 name hn
        · exact expressionInfo_reads hx.1 name (by simpa using hn)
      · rcases List.mem_append.mp hc with hc | hc
        · exact hp.2 c hc hs
        · rw [List.mem_singleton.mp hc] at hs
          exact absurd rfl hs)
  exact ⟨by simpa using this.1, this.2⟩

theorem projectFlow_reads {columns : List Projection} {source : Flow} {path : String}
    (h : (projectFlow columns source path).notes = []) :
    ∀ name ∈ columns.map (·.source), ∃ column, source.column? name = some column := by
  have hall := (projectFlow_clean h).1
  intro name hn
  obtain ⟨projection, hp, rfl⟩ := List.mem_map.mp hn
  obtain ⟨i, hi, rfl⟩ := List.mem_iff_getElem.mp hp
  exact ⟨_, (hall.get hi (hall.length_eq ▸ hi)).2⟩

theorem sortFlow_reads {keys : List SortKey} {source : Flow} {path : String}
    (h : (sortFlow keys source path).notes = []) :
    ∀ name ∈ keys.map (·.column), ∃ column, source.column? name = some column := by
  simp only [sortFlow, notes_bind, notes_pure, List.append_nil] at h
  intro name hn
  obtain ⟨key, hk, rfl⟩ := List.mem_map.mp hn
  obtain ⟨i, hi⟩ := exists_mem_zipIdx hk
  exact requireColumn_clean (mapM_clean h _ hi)

/-! ## One node -/

variable (v context) in
/-- What a clean node has passed besides its flow. -/
def Passed : NodeParameters → List Flow → Flow → Prop
  | .select entityId columns, _, _ =>
    Governed v context .entity entityId ∧ ∀ name ∈ columns, SourceColumn v context entityId name
  | .filter predicate, [source], _ =>
    ∀ column, source.column? predicate.column = some column → ∀ fieldId, column.memberDomainFieldId = some fieldId →
      scalarsOf predicate.value ≠ [] ∧ ∀ value ∈ scalarsOf predicate.value, EnabledMember v fieldId value
  | .pivot index _ _ _ _, [source], flow =>
    ∀ c ∈ flow.columns, c.2.sourceConceptId ≠ none → c.1 ∈ index ∧ source.column? c.1 = some c.2
  | .derive _, [source], flow => ∀ c ∈ flow.columns, c.2.sourceConceptId ≠ none → c ∈ source.columns
  | .join relationId leftKey rightKey _, [left, right], _ =>
    Governed v context .relation relationId ∧ ∃ relation leftColumn rightColumn,
      v.registry.relation? relationId = some relation ∧
      left.column? leftKey = some leftColumn ∧ leftColumn.sourceConceptId = some relation.fromFieldId ∧
      right.column? rightKey = some rightColumn ∧ rightColumn.sourceConceptId = some relation.toFieldId
  | _, _, _ => True

variable (v context) in
structure Checked (parameters : NodeParameters) (inputs : List Flow) (found : Flow) : Prop where
  flow : NodeFlow v parameters inputs found
  passed : Passed v context parameters inputs found
  reads : ∀ item ∈ parameters.reads, ∃ source column, inputs[item.1]? = some source ∧
    source.column? item.2 = some column

theorem reads_single {names : List String} {source : Flow}
    (h : ∀ name ∈ names, ∃ column, source.column? name = some column) :
    ∀ item ∈ names.map (Prod.mk 0), ∃ found column, [source][item.1]? = some found ∧
      found.column? item.2 = some column := by
  intro item hi
  obtain ⟨name, hn, rfl⟩ := List.mem_map.mp hi
  obtain ⟨column, hc⟩ := h name hn
  exact ⟨source, column, rfl, hc⟩

theorem validateNode_checked {flows : List (String × Flow)} {node : SQGNode} {index : Nat}
    (h : (v.validateNode context.selected flows node index).notes = []) (hk : node.operator = node.parameters.kind)
    (ha : node.dependencies.length = node.operator.arity) :
    ∃ inputs flow, (node.dependencies.mapM fun d => flows.lookup d) = some inputs ∧
      (v.validateNode context.selected flows node index).value = some flow ∧
      Checked v context node.parameters inputs flow := by
  obtain ⟨inputs, flow, hm, hv, hf⟩ := validateNode_clean h hk ha
  refine ⟨inputs, flow, hm, hv, ?_⟩
  obtain ⟨id, operator, dependencies, parameters⟩ := node
  dsimp only at hk ha hm hf ⊢
  subst hk
  cases hf with
  | select hs hmem ht =>
    refine ⟨.select hs hmem ht, ?_, by simp [NodeParameters.reads]⟩
    exact selectFlow_governed (by simpa [validateNode, NodeParameters.kind] using h)
  | filter hc hp =>
    simp only [validateNode, NodeParameters.kind, hm, notes_bind, notes_pure, List.append_nil] at h
    refine ⟨.filter hc hp, fun column hcolumn fieldId hd => validatePredicate_enabled h hcolumn hd, ?_⟩
    intro item hi
    rw [List.mem_singleton.mp hi]
    exact ⟨_, _, rfl, hc⟩
  | aggregate hcols hs =>
    simp only [validateNode, NodeParameters.kind, hm, notes_map] at h
    exact ⟨.aggregate hcols hs, trivial, reads_single (aggregateFlow_reads h)⟩
  | pivot hcols hs =>
    simp only [validateNode, NodeParameters.kind, hm, notes_map, value_map, Option.some.injEq] at h hv
    obtain ⟨hreads, hnamed⟩ := pivotFlow_reads h
    rw [hv] at hnamed
    exact ⟨.pivot hcols hs, hnamed, reads_single hreads⟩
  | derive happ hd hs =>
    simp only [validateNode, NodeParameters.kind, hm, notes_map, value_map, Option.some.injEq] at h hv
    obtain ⟨hreads, hnamed⟩ := deriveFlow_reads h
    rw [hv] at hnamed
    exact ⟨.derive happ hd hs, hnamed, reads_single hreads⟩
  | project hp hal hs =>
    simp only [validateNode, NodeParameters.kind, hm, notes_map] at h
    refine ⟨.project hp hal hs, trivial, ?_⟩
    simpa [NodeParameters.reads] using reads_single (projectFlow_reads h)
  | sort hcols hs =>
    simp only [validateNode, NodeParameters.kind, hm, notes_map] at h
    refine ⟨.sort hcols hs, trivial, ?_⟩
    simpa [NodeParameters.reads] using reads_single (sortFlow_reads h)
  | @join _ _ _ _ left right _ hcols hap hmem ht =>
    simp only [validateNode, NodeParameters.kind, hm, notes_map] at h
    obtain ⟨hrelation, relation, leftColumn, rightColumn, hr, hl, hls, hri, hrs⟩ := joinFlow_governed h
    refine ⟨.join hcols hap hmem ht, ⟨hrelation, relation, leftColumn, rightColumn, hr, hl, hls, hri, hrs⟩, ?_⟩
    intro item hi
    simp only [NodeParameters.reads, List.mem_cons, List.not_mem_nil, or_false] at hi
    rcases hi with rfl | rfl
    · exact ⟨left, leftColumn, rfl, hl⟩
    · exact ⟨right, rightColumn, rfl, hri⟩

/-! ## The whole graph -/

variable {sqg : SQG} {terms : List ResolvedTerm} {windows : List TimeWindow} {mode : Option CompilationMode}
  {flow : Flow}

theorem Accepted.checked_node (h : Accepted v sqg context terms windows mode flow) {node : SQGNode}
    (hn : node ∈ sqg.nodes) :
    ∃ inputs found,
      (node.dependencies.mapM fun d => (v.flowsOf context.selected sqg.nodes).value.lookup d) = some inputs ∧
      (v.flowsOf context.selected sqg.nodes).value.lookup node.id = some found ∧
      Checked v context node.parameters inputs found := by
  obtain ⟨i, hi⟩ := exists_mem_zipIdx hn
  obtain ⟨hnotes, hvalue⟩ := h.clean_node hi
  obtain ⟨inputs, found, hm, hv, hf⟩ := validateNode_checked hnotes (h.shapes node hn).1 (h.shapes node hn).2
  exact ⟨inputs, found, hm, hvalue.symm.trans hv, hf⟩

theorem Accepted.select_governed (h : Accepted v sqg context terms windows mode flow) {node : SQGNode}
    (hn : node ∈ sqg.nodes) {entityId : String} {columns : List String}
    (hp : node.parameters = .select entityId columns) :
    Governed v context .entity entityId ∧ ∀ name ∈ columns, SourceColumn v context entityId name := by
  obtain ⟨inputs, found, -, -, hc⟩ := h.checked_node hn
  have := hc.passed
  rw [hp] at this
  exact this

/-- Whatever a column is computed from is a governed concept of a governed entity. -/
theorem Accepted.origin_governed (h : Accepted v sqg context terms windows mode flow) {node name entityId source : String}
    (ho : Origin sqg node name entityId source) :
    Governed v context .entity entityId ∧ SourceColumn v context entityId source := by
  induction ho with
  | select hn hp hc =>
    obtain ⟨he, hcolumns⟩ := h.select_governed hn hp
    exact ⟨he, hcolumns _ hc⟩
  | step _ _ _ _ ih => exact ih

/-! ## What the result depends on -/

section Evaluation

variable {V : Type} {alg : Algebra V} [DecidableEq V] {data : Data V}

open Classical in
variable (v context alg) in
/-- A row of the entity with nulls in everything that is not governed. -/
noncomputable def governedPart (entityId : String) (r : Row String V) : Row String V := fun c =>
  if SourceColumn v context entityId c then r c else alg.null

variable (v context alg) in
/-- Two databases with the same governed columns of the governed entities. -/
def SameGoverned (data data' : Data V) : Prop :=
  ∀ entityId, Governed v context .entity entityId →
    (data entityId).map (governedPart v context alg entityId) = (data' entityId).map (governedPart v context alg entityId)

omit [DecidableEq V] in
theorem restrict_governedPart {entityId : String} {columns : List String}
    (h : ∀ name ∈ columns, SourceColumn v context entityId name) (r : Row String V) :
    alg.restrict columns (governedPart v context alg entityId r) = alg.restrict columns r := by
  funext c
  unfold Algebra.restrict governedPart
  by_cases hc : c ∈ columns
  · simp [hc, h c hc]
  · simp [hc]

omit [DecidableEq V] in
theorem select_governedPart {data data' : Data V} {entityId : String} {columns : List String}
    (hsame : SameGoverned v context alg data data') (he : Governed v context .entity entityId)
    (hcolumns : ∀ name ∈ columns, SourceColumn v context entityId name) :
    alg.select data entityId columns = alg.select data' entityId columns := by
  have hpart : ∀ d : Data V, (d entityId).map (alg.restrict columns) =
      ((d entityId).map (governedPart v context alg entityId)).map (alg.restrict columns) := by
    intro d
    rw [Multiset.map_map]
    exact Multiset.map_congr rfl fun r _ => (restrict_governedPart hcolumns r).symm
  unfold Algebra.select
  rw [hpart data, hpart data', hsame entityId he]

/-- Only a SELECT reads the database. -/
theorem apply_governed {data data' : Data V} (hsame : SameGoverned v context alg data data')
    {parameters : NodeParameters}
    (hs : ∀ entityId columns, parameters = .select entityId columns →
      Governed v context .entity entityId ∧ ∀ name ∈ columns, SourceColumn v context entityId name)
    (inputs : List (Table V)) :
    alg.apply v.parseIso data parameters inputs = alg.apply v.parseIso data' parameters inputs := by
  cases parameters with
  | select entityId columns =>
    obtain ⟨he, hcolumns⟩ := hs entityId columns rfl
    cases inputs with
    | nil => simp only [Algebra.apply, select_governedPart hsame he hcolumns]
    | cons => rfl
  | filter | aggregate | pivot | derive | project | sort | join =>
    rcases inputs with _ | ⟨a, _ | ⟨b, _ | ⟨c, rest⟩⟩⟩ <;> rfl

/-- The tables of an accepted graph are those of any database with the same governed part. -/
theorem Accepted.tables_of_governed (h : Accepted v sqg context terms windows mode flow) {data data' : Data V}
    (hsame : SameGoverned v context alg data data') :
    alg.tablesOf v.parseIso data sqg.nodes = alg.tablesOf v.parseIso data' sqg.nodes := by
  have hstep : ∀ node ∈ sqg.nodes, ∀ tables,
      alg.tableStep v.parseIso data tables node = alg.tableStep v.parseIso data' tables node := by
    intro node hn tables
    have happly : alg.apply v.parseIso data node.parameters = alg.apply v.parseIso data' node.parameters := by
      funext inputs
      exact apply_governed hsame (fun _ _ hp => h.select_governed hn hp) inputs
    unfold Algebra.tableStep
    rw [happly]
  unfold Algebra.tablesOf
  exact List.foldl_ext _ _ _ fun tables node hn => hstep node hn tables

/-! ## What a column with a source concept holds -/

/-- Each node's table is its operator on the tables of its dependencies. -/
theorem Accepted.table_of_node (h : Accepted v sqg context terms windows mode flow) {node : SQGNode}
    (hn : node ∈ sqg.nodes) :
    (alg.tablesOf v.parseIso data sqg.nodes).lookup node.id =
      (node.dependencies.mapM fun d => (alg.tablesOf v.parseIso data sqg.nodes).lookup d).bind
        (alg.apply v.parseIso data node.parameters) := by
  -- Induction over the nodes handled so far: the tables of a later node leave the earlier ones.
  have hleading : ∀ done rest, sqg.nodes = done ++ rest →
      (∀ id, (alg.tablesOf v.parseIso data done).lookup id ≠ none → id ∈ done.map (·.id)) ∧
      ∀ node ∈ done, (alg.tablesOf v.parseIso data done).lookup node.id =
        (node.dependencies.mapM fun d => (alg.tablesOf v.parseIso data done).lookup d).bind
          (alg.apply v.parseIso data node.parameters) := by
    intro done
    induction done using List.reverseRecOn with
    | nil => exact fun _ _ => ⟨fun _ h => absurd rfl h, fun _ h => by cases h⟩
    | append_singleton done x ih =>
      intro rest hsplit
      rw [List.append_assoc] at hsplit
      obtain ⟨hids, hnodes⟩ := ih ([x] ++ rest) hsplit
      have hnew : x.id ∉ done.map (·.id) := by
        have hnd := h.nodup
        rw [hsplit, List.map_append, List.map_append, List.map_cons] at hnd
        intro hin
        exact (List.nodup_append.mp hnd).2.2 _ hin _ (by simp) rfl
      have hdeps : ∀ y ∈ done ++ [x], ∀ d ∈ y.dependencies, d ∈ done.map (·.id) := by
        intro y hy d hd
        obtain ⟨i, hi⟩ := List.mem_iff_getElem?.mp hy
        have hlt : i < (done ++ [x]).length := (List.getElem?_eq_some_iff.mp hi).1
        have hitem : (y, i) ∈ sqg.nodes.zipIdx := by
          rw [List.mk_mem_zipIdx_iff_getElem?, hsplit, ← List.append_assoc, List.getElem?_append_left hlt]
          exact hi
        obtain ⟨j, hj, hji⟩ := h.earlier _ hitem d hd
        obtain ⟨hjlt, hjid, -⟩ := List.findIdx?_eq_some_iff_getElem.mp hj
        have hjdone : j < done.length := by
          simp only [List.length_append, List.length_cons, List.length_nil] at hlt
          simp only at hji
          omega
        refine List.mem_map.mpr ⟨done[j], List.getElem_mem hjdone, ?_⟩
        have : sqg.nodes[j] = done[j] := by
          simp only [hsplit]
          exact List.getElem_append_left hjdone
        simpa [this] using hjid
      have htables : alg.tablesOf v.parseIso data (done ++ [x]) =
          alg.tableStep v.parseIso data (alg.tablesOf v.parseIso data done) x := by
        simp [Algebra.tablesOf]
      have hsame : ∀ y ∈ done ++ [x],
          (y.dependencies.mapM fun d => (alg.tablesOf v.parseIso data (done ++ [x])).lookup d) =
            y.dependencies.mapM fun d => (alg.tablesOf v.parseIso data done).lookup d := by
        intro y hy
        have hlookup : ∀ d ∈ y.dependencies, (alg.tablesOf v.parseIso data (done ++ [x])).lookup d =
            (alg.tablesOf v.parseIso data done).lookup d := by
          intro d hd
          rw [htables]
          exact Watch.lookup_tableStep_ne fun he => hnew (he ▸ hdeps y hy d hd)
        exact mapM_lookup_congr hlookup
      refine ⟨fun id hid => ?_, fun y hy => ?_⟩
      · by_cases he : id = x.id
        · exact he ▸ by simp
        · rw [htables, Watch.lookup_tableStep_ne he] at hid
          rw [List.map_append]
          exact List.mem_append_left _ (hids id hid)
      · rw [hsame y hy, htables]
        rcases List.mem_append.mp hy with hy | hy
        · rw [Watch.lookup_tableStep_ne fun he => hnew (he ▸ List.mem_map.mpr ⟨y, hy, rfl⟩)]
          exact hnodes y hy
        · obtain rfl := List.mem_singleton.mp hy
          unfold Algebra.tableStep
          split
          · next table ht => simp [ht]
          · next ht =>
            rw [ht]
            by_contra hsome
            exact hnew (hids _ hsome)
  exact (hleading sqg.nodes [] (by simp)).2 node hn

variable (v context alg data) in
/-- A table has its flow's columns, and a column that names its source concept holds that
    concept's values unchanged, or nulls. -/
structure Holds (flow : Flow) (table : Table V) : Prop where
  names : ∀ n, n ∈ table.columns ↔ n ∈ flow.names
  values : ∀ c ∈ flow.columns, ∀ source, c.2.sourceConceptId = some source →
    ∃ entityId, SourceColumn v context entityId source ∧
      ∀ r ∈ table.rows, r c.1 = alg.null ∨ ∃ x ∈ data entityId, r c.1 = x source

omit [DecidableEq V] in
theorem holds_select {entityId : String} {columns : List String} {found : Flow}
    (hs : List.Forall₂ (Selected v entityId) columns found.columns)
    (hcolumns : ∀ name ∈ columns, SourceColumn v context entityId name) :
    Holds v context alg data found (alg.select data entityId columns) := by
  have hnames : found.names = columns :=
    (Watch.names_of_forall₂ (f := id) hs fun _ _ h => h.1).trans (List.map_id columns)
  constructor
  · intro n
    rw [hnames]
    rfl
  · intro c hc source hsource
    obtain ⟨name, hn, hselected⟩ := mem_of_forall₂ hs hc
    have hsame : source = name ∧ c.1 = name := by
      obtain ⟨h1, ⟨field, hf, -, hcol⟩ | ⟨metric, hm, -, hcol⟩⟩ := hselected
      · rw [hcol] at hsource
        exact ⟨(Option.some.inj hsource).symm.trans (field?_eq hf).2, h1⟩
      · rw [hcol] at hsource
        refine ⟨(Option.some.inj hsource).symm.trans ?_, h1⟩
        simpa using List.find?_some hm
    obtain ⟨rfl, hname⟩ := hsame
    refine ⟨entityId, hcolumns _ hn, ?_⟩
    intro r hr
    obtain ⟨x, hx, rfl⟩ := Multiset.mem_map.mp hr
    refine .inr ⟨x, hx, ?_⟩
    rw [hname]
    unfold Algebra.restrict
    rw [if_pos hn]

omit [DecidableEq V] in
/-- A node whose named columns and rows come from its input's. -/
theorem Holds.of_input {source found : Flow} {a b : Table V} (h : Holds v context alg data source a)
    (hnames : ∀ n, n ∈ b.columns ↔ n ∈ found.names)
    (hcolumns : ∀ c ∈ found.columns, c.2.sourceConceptId ≠ none → ∃ name, (name, c.2) ∈ source.columns ∧
      ∀ r ∈ b.rows, ∃ q ∈ a.rows, r c.1 = q name) :
    Holds v context alg data found b := by
  refine ⟨hnames, ?_⟩
  intro c hc concept hconcept
  obtain ⟨name, hname, hrows⟩ := hcolumns c hc (by simp [hconcept])
  obtain ⟨entityId, hgoverned, hvalues⟩ := h.values (name, c.2) hname concept hconcept
  refine ⟨entityId, hgoverned, ?_⟩
  intro r hr
  obtain ⟨q, hq, hrq⟩ := hrows r hr
  rw [hrq]
  exact hvalues q hq

/-- A row of a grouping has the keys of one of the grouped rows. -/
theorem mem_grouped_key {keys : List String} {cell : Multiset (Row String V) → String → V}
    {rows : Multiset (Row String V)} {name : String} (hn : name ∈ keys) {r : Row String V}
    (hr : r ∈ grouped keys cell rows) : ∃ q ∈ rows, r name = q name := by
  unfold grouped at hr
  rw [if_neg (List.ne_nil_of_mem hn)] at hr
  obtain ⟨k, hk, rfl⟩ := Multiset.mem_map.mp hr
  obtain ⟨q, hq, rfl⟩ := Multiset.mem_map.mp (Multiset.mem_dedup.mp hk)
  exact ⟨q, hq, groupRow_key hn q⟩

theorem holds_aggregate {groupBy : List String} {measures : List AggregateMeasure} {source found : Flow} {a : Table V}
    (h : Holds v context alg data source a) (hcols : Kept source groupBy measures (MeasuredFrom source) found.columns) :
    Holds v context alg data found (alg.aggregated groupBy measures a) := by
  obtain ⟨kept, rest, hsplit, hkept, hrest⟩ := hcols.split
  have hkeptNames := Watch.names_of_forall₂ (f := id) hkept fun _ _ h => h.1
  have hrestNames := Watch.names_of_forall₂ (f := AggregateMeasure.output) hrest fun _ _ h => h.1
  refine h.of_input ?_ ?_
  · intro n
    rw [Flow.names, hsplit, List.map_append, hkeptNames, hrestNames, List.map_id]
    rfl
  · intro c hc hs
    rw [hsplit] at hc
    rcases List.mem_append.mp hc with hc | hc
    · obtain ⟨name, hn, hname, hcolumn⟩ := mem_of_forall₂ hkept hc
      refine ⟨name, source.mem_of_column? hcolumn, ?_⟩
      intro r hr
      rw [hname]
      exact mem_grouped_key hn hr
    · obtain ⟨measure, -, -, info, -, hmeasured⟩ := mem_of_forall₂ hrest hc
      rw [hmeasured] at hs
      exact absurd rfl hs

theorem holds_pivot {index : List String} {column value : String} {values : List String}
    {bindings : List PivotValueBinding} {source found : Flow} {a : Table V} (h : Holds v context alg data source a)
    (hcols : Pivoted source index values found.columns)
    (hnamed : ∀ c ∈ found.columns, c.2.sourceConceptId ≠ none → c.1 ∈ index ∧ source.column? c.1 = some c.2) :
    Holds v context alg data found (alg.pivoted index column value values bindings a) := by
  refine h.of_input ?_ ?_
  · intro n
    rw [Flow.names, hcols.names n]
    exact List.mem_append
  · intro c hc hs
    obtain ⟨hi, hcolumn⟩ := hnamed c hc hs
    exact ⟨c.1, source.mem_of_column? hcolumn, fun r hr => mem_grouped_key hi hr⟩

omit [DecidableEq V] in
theorem holds_derive {columns : List DerivedColumn} {source found : Flow} {made : List (String × Column)} {a : Table V}
    (h : Holds v context alg data source a) (happ : found.columns = source.columns ++ made)
    (hd : List.Forall₂ (fun (d : DerivedColumn) c => c.1 = d.output ∧ c.2.constraintEligible = false) columns made)
    (hnamed : ∀ c ∈ found.columns, c.2.sourceConceptId ≠ none → c ∈ source.columns) :
    Holds v context alg data found (alg.derived columns a) := by
  refine h.of_input ?_ ?_
  · intro n
    have hmade := Watch.names_of_forall₂ (f := DerivedColumn.output) hd fun _ _ h => h.1
    rw [Flow.names, happ, List.map_append, hmade]
    show n ∈ a.columns ++ _ ↔ _
    rw [List.mem_append, List.mem_append, h.names n]
    rfl
  · intro c hc hs
    have hin := hnamed c hc hs
    refine ⟨c.1, hin, ?_⟩
    intro r hr
    obtain ⟨q, hq, rfl⟩ := Multiset.mem_map.mp hr
    refine ⟨q, hq, ?_⟩
    have hcolumn : c.1 ∈ a.columns := (h.names c.1).mpr (List.mem_map.mpr ⟨c, hin, rfl⟩)
    unfold Algebra.deriveRow
    rw [if_pos hcolumn]

omit [DecidableEq V] in
theorem holds_project {columns : List Projection} {source found : Flow} {a : Table V}
    (h : Holds v context alg data source a) (hp : List.Forall₂ (ProjectedFrom source) columns found.columns)
    (haliases : (columns.map (·.aliasName)).Nodup) :
    Holds v context alg data found (alg.projected columns a) := by
  refine h.of_input ?_ ?_
  · intro n
    rw [Flow.names, Watch.names_of_forall₂ (f := Projection.aliasName) hp fun _ _ h => h.1]
    rfl
  · intro c hc _
    obtain ⟨projection, hmem, hname, hcolumn⟩ := mem_of_forall₂ hp hc
    refine ⟨projection.source, source.mem_of_column? hcolumn, ?_⟩
    intro r hr
    obtain ⟨q, hq, rfl⟩ := Multiset.mem_map.mp hr
    refine ⟨q, hq, ?_⟩
    rw [hname]
    exact Watch.projectRow_apply haliases hmem q

omit [DecidableEq V] in
/-- A joined row has a left row's values in the left columns, and a right row's or nulls in
    the others. -/
theorem mem_join {leftKey rightKey : String} {joinType : JoinType} {a b : Table V} {r : Row String V}
    (hr : r ∈ (alg.join leftKey rightKey joinType a b).rows) :
    (∃ l ∈ a.rows, ∀ c ∈ a.columns, r c = l c) ∧
      ∀ c, c ∉ a.columns → r c = alg.null ∨ ∃ q ∈ b.rows, r c = q c := by
  cases joinType with
  | inner =>
    obtain ⟨l, hl, hr⟩ := Multiset.mem_bind.mp hr
    obtain ⟨q, hq, rfl⟩ := Multiset.mem_map.mp hr
    refine ⟨⟨l, hl, fun c hc => merge_left hc l q⟩, fun c hc => .inr ⟨q, (Multiset.mem_filter.mp hq).1, merge_right hc l q⟩⟩
  | left =>
    obtain ⟨l, hl, hr⟩ := Multiset.mem_bind.mp hr
    split at hr
    · rw [Multiset.mem_singleton.mp hr]
      exact ⟨⟨l, hl, fun c hc => merge_left hc l _⟩, fun c hc => .inl (merge_right hc l _)⟩
    · obtain ⟨q, hq, rfl⟩ := Multiset.mem_map.mp hr
      exact ⟨⟨l, hl, fun c hc => merge_left hc l q⟩,
        fun c hc => .inr ⟨q, (Multiset.mem_filter.mp hq).1, merge_right hc l q⟩⟩

omit [DecidableEq V] in
theorem holds_join {leftKey rightKey : String} {joinType : JoinType} {left right found : Flow} {a b : Table V}
    (hl : Holds v context alg data left a) (hr : Holds v context alg data right b)
    (hcols : found.columns = left.columns ++ right.columns) (hap : ∀ c ∈ right.columns, c.1 ∉ left.names) :
    Holds v context alg data found (alg.join leftKey rightKey joinType a b) := by
  constructor
  · intro n
    rw [Flow.names, hcols, List.map_append]
    show n ∈ a.columns ++ b.columns ↔ _
    rw [List.mem_append, List.mem_append, hl.names n, hr.names n]
    rfl
  · intro c hc source hsource
    rw [hcols] at hc
    rcases List.mem_append.mp hc with hc | hc
    · obtain ⟨entityId, hgoverned, hvalues⟩ := hl.values c hc source hsource
      refine ⟨entityId, hgoverned, ?_⟩
      intro r hrow
      obtain ⟨l, hmem, hsame⟩ := (mem_join hrow).1
      rw [hsame c.1 ((hl.names c.1).mpr (List.mem_map.mpr ⟨c, hc, rfl⟩))]
      exact hvalues l hmem
    · obtain ⟨entityId, hgoverned, hvalues⟩ := hr.values c hc source hsource
      refine ⟨entityId, hgoverned, ?_⟩
      intro r hrow
      rcases (mem_join hrow).2 c.1 fun hin => hap c hc ((hl.names c.1).mp hin) with hnull | ⟨q, hq, hsame⟩
      · exact .inl hnull
      · rw [hsame]
        exact hvalues q hq

theorem filteredFlow_columns (predicate : Predicate) (source : Flow) :
    (v.filteredFlow predicate source).columns = source.columns := by
  unfold filteredFlow
  split <;> rfl

/-- One node: from tables that hold to one that does. -/
theorem holds_node {parameters : NodeParameters} {inputs : List Flow} {found : Flow} {tables : List (Table V)}
    (hc : Checked v context parameters inputs found)
    (hin : List.Forall₂ (Holds v context alg data) inputs tables) :
    ∃ table, alg.apply v.parseIso data parameters tables = some table ∧ Holds v context alg data found table := by
  obtain ⟨hf, hpassed, -⟩ := hc
  cases hf with
  | select hs =>
    cases hin
    exact ⟨_, rfl, holds_select hs hpassed.2⟩
  | filter hcolumn hp =>
    obtain ⟨a, rfl, ha⟩ := forall₂_singleton hin
    refine ⟨_, rfl, ha.of_input ?_ ?_⟩
    · intro n
      rw [Flow.names, filteredFlow_columns]
      exact ha.names n
    · intro c hcol _
      rw [filteredFlow_columns] at hcol
      exact ⟨c.1, hcol, fun r hr => ⟨r, (Multiset.mem_filter.mp hr).1, rfl⟩⟩
  | aggregate hcols hs =>
    obtain ⟨a, rfl, ha⟩ := forall₂_singleton hin
    exact ⟨_, rfl, holds_aggregate ha hcols⟩
  | pivot hcols hs =>
    obtain ⟨a, rfl, ha⟩ := forall₂_singleton hin
    exact ⟨_, rfl, holds_pivot ha hcols hpassed⟩
  | derive happ hd hs =>
    obtain ⟨a, rfl, ha⟩ := forall₂_singleton hin
    exact ⟨_, rfl, holds_derive ha happ hd hpassed⟩
  | project hp hal hs =>
    obtain ⟨a, rfl, ha⟩ := forall₂_singleton hin
    exact ⟨_, rfl, holds_project ha hp hal⟩
  | sort hcols hs =>
    obtain ⟨a, rfl, ha⟩ := forall₂_singleton hin
    refine ⟨_, rfl, ha.of_input ?_ ?_⟩
    · intro n
      rw [Flow.names, hcols]
      exact ha.names n
    · intro c hc _
      rw [hcols] at hc
      exact ⟨c.1, hc, fun r hr => ⟨r, hr, rfl⟩⟩
  | join hcols hap hm ht =>
    obtain ⟨a, b, rfl, ha, hb⟩ : ∃ a b, tables = [a, b] ∧ Holds v context alg data _ a ∧
        Holds v context alg data _ b := by
      cases hin with
      | cons ha hrest =>
        cases hrest with
        | cons hb hrest => cases hrest; exact ⟨_, _, rfl, ha, hb⟩
    exact ⟨_, rfl, holds_join ha hb hcols hap⟩

/-- Every node of an accepted graph has a table, and it holds for the node's flow. -/
theorem Accepted.holds (h : Accepted v sqg context terms windows mode flow) (alg : Algebra V) (data : Data V)
    {node : SQGNode} (hn : node ∈ sqg.nodes) :
    ∃ found table, (v.flowsOf context.selected sqg.nodes).value.lookup node.id = some found ∧
      (alg.tablesOf v.parseIso data sqg.nodes).lookup node.id = some table ∧
      Holds v context alg data found table := by
  -- Induction on the position: dependencies stand earlier.
  obtain ⟨i, hi⟩ := exists_mem_zipIdx hn
  clear hn
  induction i using Nat.strong_induction_on generalizing node with
  | _ i ih =>
    have hmem : node ∈ sqg.nodes := (List.mem_zipIdx' hi).2 ▸ List.getElem_mem _
    obtain ⟨inputs, found, hm, hfound, hc⟩ := h.checked_node hmem
    have hdeps : ∀ d ∈ node.dependencies, ∀ source,
        (v.flowsOf context.selected sqg.nodes).value.lookup d = some source →
        ∃ table, (alg.tablesOf v.parseIso data sqg.nodes).lookup d = some table ∧
          Holds v context alg data source table := by
      intro d hd source hsource
      obtain ⟨j, hj, hji⟩ := h.earlier _ hi d hd
      obtain ⟨hjlt, hjid, -⟩ := List.findIdx?_eq_some_iff_getElem.mp hj
      have hitem : (sqg.nodes[j], j) ∈ sqg.nodes.zipIdx :=
        List.mk_mem_zipIdx_iff_getElem?.mpr (List.getElem?_eq_getElem hjlt)
      obtain ⟨found', table, hfound', htable, hholds⟩ := ih j hji hitem
      have hid : sqg.nodes[j].id = d := by simpa using hjid
      rw [hid] at hfound' htable
      rw [hsource] at hfound'
      obtain rfl := Option.some.inj hfound'
      exact ⟨table, htable, hholds⟩
    obtain ⟨tables, htables, hholds⟩ : ∃ tables,
        (node.dependencies.mapM fun d => (alg.tablesOf v.parseIso data sqg.nodes).lookup d) = some tables ∧
        List.Forall₂ (Holds v context alg data) inputs tables := by
      have hm := option_mapM_eq_some.mp hm
      simp only [option_mapM_eq_some]
      exact exists_forall₂_of_forall₂ hm hdeps
    obtain ⟨table, happly, hheld⟩ := holds_node hc hholds
    refine ⟨found, table, hfound, ?_, hheld⟩
    rw [h.table_of_node hmem, htables]
    exact happly

/-- The input that a flow of a dependency describes. -/
theorem Accepted.input_holds (h : Accepted v sqg context terms windows mode flow) (alg : Algebra V) (data : Data V)
    {node : SQGNode} (hn : node ∈ sqg.nodes) {d : String} (hd : d ∈ node.dependencies) {source : Flow}
    (hs : (v.flowsOf context.selected sqg.nodes).value.lookup d = some source) :
    ∃ table, (alg.tablesOf v.parseIso data sqg.nodes).lookup d = some table ∧
      Holds v context alg data source table := by
  obtain ⟨i, hi⟩ := exists_mem_zipIdx hn
  obtain ⟨j, hj, -⟩ := h.earlier _ hi d hd
  obtain ⟨hjlt, hjid, -⟩ := List.findIdx?_eq_some_iff_getElem.mp hj
  obtain ⟨found, table, hfound, htable, hholds⟩ := h.holds alg data (List.getElem_mem hjlt)
  have hid : sqg.nodes[j].id = d := by simpa using hjid
  rw [hid] at hfound htable
  rw [hs] at hfound
  obtain rfl := Option.some.inj hfound
  exact ⟨table, htable, hholds⟩

omit [DecidableEq V] in
/-- The values of a field a join's key carries are the field's own, of the entity that the
    relation names. -/
theorem Holds.relation_field {found : Flow} {table : Table V} (h : Holds v context alg data found table)
    {name : String} {column : Column} (hc : found.column? name = some column) {field : OntologyField}
    (hfield : field ∈ v.registry.fields) (hs : column.sourceConceptId = some field.id) :
    Governed v context .field field.id ∧
      ∀ r ∈ table.rows, r name = alg.null ∨ ∃ x ∈ data field.entityId, r name = x field.id := by
  obtain ⟨entityId, hsource, hvalues⟩ := h.values _ (found.mem_of_column? hc) _ hs
  rcases hsource with ⟨found', hf, rfl, hgoverned⟩ | ⟨metric, hm, -, -⟩
  · rw [field?_of_mem hfield] at hf
    obtain rfl := Option.some.inj hf
    exact ⟨hgoverned, hvalues⟩
  · exfalso
    exact metric_id_ne_field_id (List.mem_of_find?_eq_some hm) hfield (by simpa using List.find?_some hm)

/-! ## Governance -/

variable (v context alg data sqg) in
/-- What governance asks of a graph over a database. -/
structure Governance : Prop where
  /-- Entities and their columns are governed where the database is read. -/
  selects : ∀ node ∈ sqg.nodes, ∀ entityId columns, node.parameters = .select entityId columns →
    Governed v context .entity entityId ∧ ∀ name ∈ columns, SourceColumn v context entityId name
  /-- Every column a node names is there, and all the source columns behind it are governed. -/
  reads : ∀ node ∈ sqg.nodes, ∀ item ∈ node.parameters.reads, ∃ d table, node.dependencies[item.1]? = some d ∧
    (alg.tablesOf v.parseIso data sqg.nodes).lookup d = some table ∧ item.2 ∈ table.columns ∧
    ∀ entityId source, Origin sqg d item.2 entityId source →
      Governed v context .entity entityId ∧ SourceColumn v context entityId source
  /-- Nothing else in the database has an influence on the result. -/
  blind : ∀ data', SameGoverned v context alg data data' →
    alg.evaluate v.parseIso data sqg = alg.evaluate v.parseIso data' sqg
  /-- A join's relation is governed, and its keys hold the relation's two fields unchanged, or
      the null of a row an earlier left join found no match for. -/
  joins : ∀ node ∈ sqg.nodes, ∀ relationId leftKey rightKey joinType,
    node.parameters = .join relationId leftKey rightKey joinType →
    Governed v context .relation relationId ∧ ∃ relation l r left right,
      v.registry.relation? relationId = some relation ∧ node.dependencies = [l, r] ∧
      (alg.tablesOf v.parseIso data sqg.nodes).lookup l = some left ∧
      (alg.tablesOf v.parseIso data sqg.nodes).lookup r = some right ∧
      Governed v context .field relation.fromFieldId ∧ Governed v context .field relation.toFieldId ∧
      (∀ row ∈ left.rows, row leftKey = alg.null ∨
        ∃ x ∈ data relation.fromEntityId, row leftKey = x relation.fromFieldId) ∧
      ∀ row ∈ right.rows, row rightKey = alg.null ∨
        ∃ x ∈ data relation.toEntityId, row rightKey = x relation.toFieldId
  /-- A predicate on a column that carries a member domain compares it with enabled members of
      that field only. -/
  literals : ∀ node ∈ sqg.nodes, ∀ predicate, node.parameters = .filter predicate →
    ∀ d ∈ node.dependencies, ∀ source column fieldId,
      (v.flowsOf context.selected sqg.nodes).value.lookup d = some source →
      source.column? predicate.column = some column → column.memberDomainFieldId = some fieldId →
      scalarsOf predicate.value ≠ [] ∧ ∀ value ∈ scalarsOf predicate.value, EnabledMember v fieldId value

theorem Accepted.governs_reads (h : Accepted v sqg context terms windows mode flow) (alg : Algebra V) (data : Data V)
    {node : SQGNode} (hn : node ∈ sqg.nodes) {item : Nat × String} (hi : item ∈ node.parameters.reads) :
    ∃ d table, node.dependencies[item.1]? = some d ∧
      (alg.tablesOf v.parseIso data sqg.nodes).lookup d = some table ∧ item.2 ∈ table.columns := by
  obtain ⟨inputs, found, hm, -, hc⟩ := h.checked_node hn
  obtain ⟨source, column, hsource, hcolumn⟩ := hc.reads item hi
  obtain ⟨hlt, hget⟩ := List.getElem?_eq_some_iff.mp hsource
  have hall := option_mapM_eq_some.mp hm
  have hdlt : item.1 < node.dependencies.length := hall.length_eq ▸ hlt
  have hlookup := hall.get hdlt hlt
  simp only [List.get_eq_getElem, hget] at hlookup
  obtain ⟨table, htable, hholds⟩ := h.input_holds alg data hn (List.getElem_mem hdlt) hlookup
  exact ⟨_, table, List.getElem?_eq_getElem hdlt, htable, (hholds.names _).mpr (source.mem_names_of_column? hcolumn)⟩

theorem Accepted.governs_join (h : Accepted v sqg context terms windows mode flow) (alg : Algebra V) (data : Data V)
    {node : SQGNode} (hn : node ∈ sqg.nodes) {relationId leftKey rightKey : String} {joinType : JoinType}
    (hp : node.parameters = .join relationId leftKey rightKey joinType) :
    Governed v context .relation relationId ∧ ∃ relation l r left right,
      v.registry.relation? relationId = some relation ∧ node.dependencies = [l, r] ∧
      (alg.tablesOf v.parseIso data sqg.nodes).lookup l = some left ∧
      (alg.tablesOf v.parseIso data sqg.nodes).lookup r = some right ∧
      Governed v context .field relation.fromFieldId ∧ Governed v context .field relation.toFieldId ∧
      (∀ row ∈ left.rows, row leftKey = alg.null ∨
        ∃ x ∈ data relation.fromEntityId, row leftKey = x relation.fromFieldId) ∧
      ∀ row ∈ right.rows, row rightKey = alg.null ∨
        ∃ x ∈ data relation.toEntityId, row rightKey = x relation.toFieldId := by
  obtain ⟨inputs, found, hm, -, hc⟩ := h.checked_node hn
  obtain ⟨hf, hpassed, -⟩ := hc
  rw [hp] at hf hpassed
  cases hf with
  | @join _ _ _ _ leftFlow rightFlow _ _ _ _ _ =>
    obtain ⟨hrelation, relation, leftColumn, rightColumn, hr, hl, hls, hri, hrs⟩ := hpassed
    obtain ⟨l, r, hdeps⟩ : ∃ l r, node.dependencies = [l, r] :=
      List.length_eq_two.mp (option_mapM_eq_some.mp hm).length_eq
    rw [hdeps] at hm
    have hboth := option_mapM_eq_some.mp hm
    rw [List.forall₂_cons, List.forall₂_cons] at hboth
    obtain ⟨left, hleft, hleftHolds⟩ := h.input_holds alg data hn (by rw [hdeps]; simp) hboth.1
    obtain ⟨right, hright, hrightHolds⟩ := h.input_holds alg data hn (by rw [hdeps]; simp) hboth.2.1
    obtain ⟨source, hsource, target, htarget, hsid, htid, hse, hte, -⟩ :=
      v.registry.endpoints relation (List.mem_of_find?_eq_some hr)
    rw [← hsid] at hls
    rw [← htid] at hrs
    obtain ⟨hgs, hvs⟩ := hleftHolds.relation_field hl hsource hls
    obtain ⟨hgt, hvt⟩ := hrightHolds.relation_field hri htarget hrs
    rw [hsid] at hgs hvs
    rw [htid] at hgt hvt
    rw [hse] at hvs
    rw [hte] at hvt
    exact ⟨hrelation, relation, l, r, left, right, hr, hdeps, hleft, hright, hgs, hgt, hvs, hvt⟩

/-- Whatever the validator accepts is governed, over every database. -/
theorem validate_governs {V : Type} [DecidableEq V] (v : SQGValidator) (alg : Algebra V) (data : Data V) (sqg : SQG)
    (context : SemanticContext) (terms : List ResolvedTerm) (windows : List TimeWindow)
    (mode : Option CompilationMode) (h : (v.validate sqg context terms windows mode).valid = true) :
    Governance v context sqg alg data := by
  obtain ⟨flow, h⟩ := accepted_of_valid h
  constructor
  · intro node hn entityId columns hp
    exact h.select_governed hn hp
  · intro node hn item hi
    obtain ⟨d, table, hd, htable, hname⟩ := h.governs_reads alg data hn hi
    exact ⟨d, table, hd, htable, hname, fun _ _ ho => h.origin_governed ho⟩
  · intro data' hsame
    unfold Algebra.evaluate
    rw [h.tables_of_governed hsame]
  · intro node hn relationId leftKey rightKey joinType hp
    exact h.governs_join alg data hn hp
  · intro node hn predicate hp d hd source column fieldId hs hc hdomain
    obtain ⟨inputs, found, hm, -, hchecked⟩ := h.checked_node hn
    obtain ⟨hf, hpassed, -⟩ := hchecked
    rw [hp] at hf hpassed
    cases hf with
    | filter =>
      have hone := option_mapM_eq_some.mp hm
      obtain ⟨only, hdeps⟩ := List.length_eq_one_iff.mp hone.length_eq
      rw [hdeps] at hd hone
      rw [List.mem_singleton.mp hd] at hs
      rw [List.forall₂_cons, hs] at hone
      obtain rfl := Option.some.inj hone.1
      exact hpassed column hc fieldId hdomain

/-- The join of accounts with their parents is accepted, and governed. -/
theorem selfJoin_governed :
    (accountsValidator.validate selfJoin accountsContext retailTerm [] none).valid = true ∧
      Governance accountsValidator accountsContext selfJoin texts (accountData true) :=
  ⟨by decide +kernel, validate_governs accountsValidator texts (accountData true) selfJoin accountsContext retailTerm []
    none (by decide +kernel)⟩

end Evaluation

end SQGValidator

end DataNexus.Semantic
