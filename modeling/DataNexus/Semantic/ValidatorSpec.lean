/-
  DataNexus.Semantic.ValidatorSpec — what a node's flow is when nothing was noted on it.

  One lemma for each operator's flow function, gathered in `NodeFlow`: the columns of the
  inputs behind each column of the flow, and how the constraints of the inputs and the
  node's own make up those of the flow. `flowsOf_clean` is the induction over a graph's
  nodes that the results on accepted graphs use.
-/

import DataNexus.Semantic.Validate

namespace DataNexus.Semantic

open Lib Noted

/-! ## Columns -/

theorem hasColumn_iff {columns : List (String × Column)} {name : String} :
    hasColumn columns name = true ↔ name ∈ columns.map (·.1) := by
  unfold hasColumn
  induction columns with
  | nil => simp
  | cons c columns ih =>
    by_cases h : name = c.1
    · simp [h]
    · rw [List.lookup_cons, beq_false_of_ne h, List.map_cons, List.mem_cons, or_iff_right h]
      exact ih

theorem Flow.mem_of_column? {flow : Flow} {name : String} {column : Column} (h : flow.column? name = some column) :
    (name, column) ∈ flow.columns :=
  mem_of_lookup h

/-- The names of a flow's columns. -/
def Flow.names (flow : Flow) : List String := flow.columns.map (·.1)

theorem Flow.mem_names_of_column? {flow : Flow} {name : String} {column : Column}
    (h : flow.column? name = some column) : name ∈ flow.names :=
  List.mem_map.mpr ⟨_, flow.mem_of_column? h, rfl⟩

/-- The column `c` is the input's column `name`. -/
def TakenFrom (source : Flow) (name : String) (c : String × Column) : Prop :=
  c.1 = name ∧ source.column? name = some c.2

theorem requireColumn_clean {column : String} {flow : Flow} {path : String}
    (h : (SQGValidator.requireColumn column flow path).notes = []) : ∃ info, flow.column? column = some info := by
  simp only [SQGValidator.requireColumn, notes_bind, notes_pure, List.append_nil, notes_noteIf] at h
  exact Option.isSome_iff_exists.mp (by simpa using h)

@[simp] theorem requireColumn_value {column : String} {flow : Flow} {path : String} :
    (SQGValidator.requireColumn column flow path).value = flow.column? column := rfl

namespace SQGValidator

variable (v : SQGValidator)

/-! ## SELECT -/

/-- `c` is the column of the field or metric `name` of the entity. -/
def Selected (entityId name : String) (c : String × Column) : Prop :=
  c.1 = name ∧
    ((∃ field, v.registry.field? name = some field ∧ field.entityId = entityId ∧ c.2 = fieldColumn field) ∨
      ∃ metric, v.registry.metric? name = some metric ∧ metric.entityId = entityId ∧ c.2 = metricColumn metric)

variable {v}

theorem selectColumn_clean {entityId : String} {selected : List String} {path : String}
    {state : List (String × Column) × List String} {item : String × Nat}
    (h : (v.selectColumn entityId selected path state item).notes = []) :
    ∃ c grain, (v.selectColumn entityId selected path state item).value = (state.1 ++ [c], grain) ∧
      Selected v entityId item.1 c := by
  unfold selectColumn at h ⊢
  by_cases hdup : hasColumn state.1 item.1 = true
  · simp [hdup] at h
  simp only [hdup, Bool.false_eq_true, if_false] at h ⊢
  cases hf : v.registry.field? item.1 with
  | some field =>
    simp only [hf, notes_bind, notes_noteIf, List.append_eq_nil_iff, decide_eq_false_iff_not, not_not] at h
    exact ⟨(item.1, fieldColumn field), state.2 ++ [item.1], rfl, rfl, .inl ⟨field, hf, h.2.1, rfl⟩⟩
  | none =>
    cases hm : v.registry.metric? item.1 with
    | some metric =>
      simp only [hf, hm, notes_bind, notes_noteIf, List.append_eq_nil_iff, decide_eq_false_iff_not, not_not] at h
      exact ⟨(item.1, metricColumn metric), state.2, rfl, rfl, .inr ⟨metric, hm, h.2.1, rfl⟩⟩
    | none => simp [hf, hm] at h

theorem selectFlow_clean {entityId : String} {columns : List String} {path : String} {selected : List String}
    (h : (v.selectFlow entityId columns path selected).notes = []) :
    List.Forall₂ (Selected v entityId) columns (v.selectFlow entityId columns path selected).value.columns := by
  simp only [selectFlow, notes_bind, notes_pure, List.append_nil, List.append_eq_nil_iff] at h
  have := foldlM_clean h.2 (P := fun done state => List.Forall₂ (Selected v entityId) (done.map (·.1)) state.1) .nil
    (fun done x rest t _ hp hx => by
      obtain ⟨c, grain, hc, hs⟩ := selectColumn_clean hx
      rw [hc, List.map_append]
      exact forall₂_snoc hp hs)
  simpa [selectFlow] using this

/-! ## FILTER -/

variable (v) in
/-- The scalar is the id of a member of the field. -/
def IsMember (fieldId : String) (value : Scalar) : Prop :=
  ∃ id member, value = .text id ∧ v.registry.member? id = some (fieldId, member)

variable (v) in
/-- What the checks leave of a predicate on the column. -/
structure PredicateValid (predicate : Predicate) (column : Column) : Prop where
  member : ∀ fieldId, column.memberDomainFieldId = some fieldId →
    (predicate.operator = .eq ∧ ∃ value, predicate.value = .scalar value ∧ IsMember v fieldId value) ∨
    (predicate.operator = .isIn ∧
      ∃ values, predicate.value = .list values ∧ values ≠ [] ∧ ∀ value ∈ values, IsMember v fieldId value)
  window : predicate.operator = .between → ∃ window, v.windowOf predicate.value = some window

theorem validateMember_clean {domain : String} {value : Option Scalar} {path : String}
    (h : (v.validateMember domain value path).notes = []) : ∃ x, value = some x ∧ IsMember v domain x := by
  unfold validateMember at h
  split at h
  · next id =>
    split at h
    · simp at h
    · next fieldId member hm =>
      split at h
      · simp at h
      · next hd => exact ⟨.text id, rfl, id, member, rfl, by rw [hm, not_not.mp hd]⟩
  · simp at h

theorem validateValue_clean {column : Column} {operator : PredicateOperator} {value : Option Scalar} {path : String}
    (h : (v.validateValue column operator value path).notes = []) {fieldId : String}
    (hd : column.memberDomainFieldId = some fieldId) : ∃ x, value = some x ∧ IsMember v fieldId x := by
  unfold validateValue at h
  simp only [hd] at h
  split at h
  · simp at h
  · simp only [notes_bind, List.append_eq_nil_iff] at h
    exact validateMember_clean h.2.2

theorem validateBetween_clean {value : PredicateValue} {column : Column} {path : String}
    (h : (v.validateBetween value column path).notes = []) : ∃ window, v.windowOf value = some window := by
  unfold validateBetween at h
  split at h
  · next entries =>
    split at h
    · simp at h
    · next start stop hr =>
      split at h
      · simp at h
      · split at h
        · next first last hs he =>
          split at h
          · next a b ha hb =>
            refine ⟨(a, b), ?_⟩
            have hab : a < b := by simpa using h
            simp [windowOf, hr, hs, he, ha, hb, hab]
          · simp at h
        · simp at h
  · simp at h

theorem validatePredicate_clean {predicate : Predicate} {source : Flow} {path : String}
    (h : (v.validatePredicate predicate source path).notes = []) :
    ∃ column, source.column? predicate.column = some column ∧ PredicateValid v predicate column := by
  obtain ⟨name, operator, value⟩ := predicate
  unfold validatePredicate at h
  simp only [notes_bind, List.append_eq_nil_iff, requireColumn_value] at h
  obtain ⟨column, hc⟩ := requireColumn_clean h.1
  simp only [hc, notes_bind, List.append_eq_nil_iff, notes_noteIf] at h
  obtain ⟨-, hop, hrest⟩ := h
  refine ⟨column, hc, ⟨fun fieldId hd => ?_, fun hb => ?_⟩⟩
  · -- A member column admits EQ and IN only.
    have hop' : operator = .eq ∨ operator = .isIn := by
      by_cases he : operator = .eq
      · exact .inl he
      · simp [hd, he] at hop
        exact .inr hop
    rcases hop' with rfl | rfl
    · cases value with
      | null => simpa using validateValue_clean hrest hd
      | scalar value =>
        obtain ⟨x, hx, hm⟩ := validateValue_clean hrest hd
        exact .inl ⟨rfl, value, rfl, by rwa [Option.some.inj hx]⟩
      | list values => simp at hrest
      | dict entries => simp at hrest
    · cases value with
      | null => simp at hrest
      | scalar value => simp at hrest
      | dict entries => simp at hrest
      | list values =>
        cases values with
        | nil => simp at hrest
        | cons first values =>
          refine .inr ⟨rfl, first :: values, rfl, by simp, fun x hx => ?_⟩
          obtain ⟨i, hi⟩ := exists_mem_zipIdx hx
          obtain ⟨y, hy, hm⟩ := validateValue_clean (forM_clean.mp hrest _ hi) hd
          cases hy
          exact hm
  · subst hb
    exact validateBetween_clean hrest

/-! ## AGGREGATE, PIVOT -/

theorem groupColumn_clean {source : Flow} {path : String} {state : List (String × Column) × List String}
    {item : String × Nat} (h : (groupColumn source path state item).notes = []) :
    ∃ c enforcing, (groupColumn source path state item).value = (state.1 ++ [c], enforcing) ∧
      TakenFrom source item.1 c := by
  unfold groupColumn at h ⊢
  simp only [notes_bind, List.append_eq_nil_iff] at h
  obtain ⟨column, hc⟩ := requireColumn_clean h.1
  by_cases hdup : hasColumn state.1 item.1 = true
  · simp [hdup] at h
  · refine ⟨(item.1, column), state.2 ++ column.conceptLineage ++ column.entities, ?_, rfl, hc⟩
    simp [hdup, hc]

/-- The column a measure makes of its source's. -/
def measured (info : Column) : Column :=
  { dataType := .number
    entities := info.entities
    conceptLineage := info.conceptLineage
    aggregatedConcepts := info.conceptLineage ++ info.aggregatedConcepts
    constraintEligible := false }

def MeasuredFrom (source : Flow) (measure : AggregateMeasure) (c : String × Column) : Prop :=
  c.1 = measure.output ∧ ∃ info, source.column? measure.source = some info ∧ c.2 = measured info

theorem measureColumn_clean {source : Flow} {path : String} {columns : List (String × Column)}
    {item : AggregateMeasure × Nat} (h : (measureColumn source path columns item).notes = []) :
    ∃ c, (measureColumn source path columns item).value = columns ++ [c] ∧ MeasuredFrom source item.1 c := by
  unfold measureColumn at h ⊢
  simp only [notes_bind, List.append_eq_nil_iff] at h
  obtain ⟨info, hi⟩ := requireColumn_clean h.1
  by_cases hdup : hasColumn columns item.1.output = true
  · simp [hdup] at h
  · refine ⟨(item.1.output, measured info), ?_, rfl, info, hi, rfl⟩
    simp [hdup, hi, measured]

/-- The columns that a node keeps of its input, then those it makes. -/
structure Kept {α : Type} (source : Flow) (keys : List String) (made : List α) (Made : α → String × Column → Prop)
    (columns : List (String × Column)) : Prop where
  split : ∃ kept rest, columns = kept ++ rest ∧ List.Forall₂ (TakenFrom source) keys kept ∧ List.Forall₂ Made made rest

theorem aggregateFlow_clean {groupBy : List String} {measures : List AggregateMeasure} {source : Flow} {path : String}
    (h : (aggregateFlow groupBy measures source path).notes = []) :
    Kept source groupBy measures (MeasuredFrom source) (aggregateFlow groupBy measures source path).value.columns := by
  simp only [aggregateFlow, notes_bind, notes_pure, List.append_nil, List.append_eq_nil_iff] at h
  have hg := foldlM_clean h.1 (P := fun done state => List.Forall₂ (TakenFrom source) (done.map (·.1)) state.1) .nil
    (fun done x rest t _ hp hx => by
      obtain ⟨c, enforcing, hc, ht⟩ := groupColumn_clean hx
      rw [hc, List.map_append]
      exact forall₂_snoc hp ht)
  have hm := foldlM_clean h.2
    (P := fun done columns => ∃ rest, columns = _ ++ rest ∧ List.Forall₂ (MeasuredFrom source) (done.map (·.1)) rest)
    ⟨[], (List.append_nil _).symm, .nil⟩
    (fun done x rest t _ hp hx => by
      obtain ⟨made, rfl, hp⟩ := hp
      obtain ⟨c, hc, hm⟩ := measureColumn_clean hx
      refine ⟨made ++ [c], by rw [hc, List.append_assoc], ?_⟩
      rw [List.map_append]
      exact forall₂_snoc hp hm)
  obtain ⟨rest, hr, hm⟩ := hm
  refine ⟨_, rest, hr, ?_, ?_⟩
  · simpa using hg
  · simpa using hm

theorem mem_setColumn {columns : List (String × Column)} {name : String} {column : Column} {c : String × Column}
    (h : c ∈ setColumn columns name column) : c = (name, column) ∨ c ∈ columns := by
  unfold setColumn at h
  split at h
  · obtain ⟨b, hb, rfl⟩ := List.mem_map.mp h
    split
    · exact .inl rfl
    · exact .inr hb
  · rcases List.mem_append.mp h with h | h
    · exact .inr h
    · exact .inl (List.mem_singleton.mp h)

theorem names_setColumn {columns : List (String × Column)} {name n : String} {column : Column} :
    n ∈ (setColumn columns name column).map (·.1) ↔ n = name ∨ n ∈ columns.map (·.1) := by
  unfold setColumn
  split
  · next h =>
    have hsame : (columns.map fun c => if c.1 = name then (name, column) else c).map (·.1) = columns.map (·.1) := by
      rw [List.map_map]
      refine List.map_congr_left fun c _ => ?_
      by_cases hc : c.1 = name <;> simp [hc]
    rw [hsame, iff_or_self]
    intro hn
    exact hn ▸ hasColumn_iff.mp h
  · simp [or_comm]

theorem indexColumn_clean {source : Flow} {path : String} {state : List (String × Column) × List String}
    {item : String × Nat} (h : (indexColumn source path state item).notes = []) :
    ∃ column enforcing, (indexColumn source path state item).value = (setColumn state.1 item.1 column, enforcing) ∧
      source.column? item.1 = some column := by
  unfold indexColumn at h ⊢
  simp only [notes_bind, List.append_eq_nil_iff] at h
  obtain ⟨column, hc⟩ := requireColumn_clean h.1
  exact ⟨column, state.2 ++ column.conceptLineage ++ column.entities, by simp [hc], hc⟩

theorem valueColumn_clean {source : Flow} {info : Option Column} {path : String} {columns : List (String × Column)}
    {item : String × Nat} (h : (valueColumn source info path columns item).notes = []) :
    (valueColumn source info path columns item).value = columns ++ [(item.1, pivotedColumn source info)] := by
  unfold valueColumn at h ⊢
  by_cases hdup : hasColumn columns item.1 = true
  · simp [hdup] at h
  · simp [hdup]

/-- The columns of a pivot: those of its index, and an ineligible one for each value. -/
structure Pivoted (source : Flow) (index values : List String) (columns : List (String × Column)) : Prop where
  names : ∀ n, n ∈ columns.map (·.1) ↔ n ∈ index ∨ n ∈ values
  column : ∀ c ∈ columns, (c.1 ∈ index ∧ source.column? c.1 = some c.2) ∨ c.2.constraintEligible = false

theorem pivotFlow_clean {index : List String} {column value : String} {values : List String} {source : Flow}
    {path : String} (h : (pivotFlow index column value values source path).notes = []) :
    Pivoted source index values (pivotFlow index column value values source path).value.columns := by
  simp only [pivotFlow, notes_bind, notes_pure, List.append_nil, List.append_eq_nil_iff] at h
  obtain ⟨hidx, -, -, hval, -⟩ := h
  have hi := foldlM_clean hidx (P := fun done state => Pivoted source (done.map (·.1)) [] state.1)
    ⟨by simp, by simp⟩
    (fun done x rest t _ hp hx => by
      obtain ⟨col, enforcing, hc, ht⟩ := indexColumn_clean hx
      rw [hc]
      refine ⟨fun n => ?_, fun c hc => ?_⟩
      · rw [names_setColumn, hp.names]
        simp [or_comm]
      · rcases mem_setColumn hc with rfl | hc
        · exact .inl ⟨by simp, ht⟩
        · refine (hp.column c hc).imp_left fun hin => ⟨?_, hin.2⟩
          rw [List.map_append]
          exact List.mem_append_left _ hin.1)
  have hv := foldlM_clean hval (P := fun done columns => Pivoted source index (done.map (·.1)) columns)
    (by simpa using hi)
    (fun done x rest t _ hp hx => by
      rw [valueColumn_clean hx]
      refine ⟨fun n => ?_, fun c hc => ?_⟩
      · rw [List.map_append, List.mem_append, hp.names]
        simp [or_assoc]
      · rcases List.mem_append.mp hc with hc | hc
        · exact hp.column c hc
        · rw [List.mem_singleton.mp hc]
          exact .inr rfl)
  simpa [pivotFlow] using hv

/-! ## DERIVE, PROJECT, JOIN -/

theorem derivedColumn_clean {source : Flow} {path : String} {columns : List (String × Column)}
    {item : DerivedColumn × Nat} (h : (v.derivedColumn source path columns item).notes = []) :
    ∃ c, (v.derivedColumn source path columns item).value = columns ++ [c] ∧
      c.1 = item.1.output ∧ c.2.constraintEligible = false := by
  unfold derivedColumn at h ⊢
  by_cases hdup : hasColumn columns item.1.output = true
  · simp [hdup] at h
  · simp only [hdup, Bool.false_eq_true, if_false]
    exact ⟨_, rfl, rfl, rfl⟩

theorem deriveFlow_clean {columns : List DerivedColumn} {source : Flow} {path : String}
    (h : (v.deriveFlow columns source path).notes = []) :
    ∃ made, (v.deriveFlow columns source path).value.columns = source.columns ++ made ∧
      List.Forall₂ (fun (d : DerivedColumn) c => c.1 = d.output ∧ c.2.constraintEligible = false) columns made := by
  simp only [deriveFlow, notes_bind, notes_pure, List.append_nil] at h
  have := foldlM_clean h
    (P := fun done out => ∃ made, out = source.columns ++ made ∧ List.Forall₂
      (fun (d : DerivedColumn) c => c.1 = d.output ∧ c.2.constraintEligible = false) (done.map (·.1)) made)
    ⟨[], (List.append_nil _).symm, .nil⟩
    (fun done x rest t _ hp hx => by
      obtain ⟨made, rfl, hp⟩ := hp
      obtain ⟨c, hc, hd⟩ := derivedColumn_clean hx
      refine ⟨made ++ [c], by rw [hc, List.append_assoc], ?_⟩
      rw [List.map_append]
      exact forall₂_snoc hp hd)
  obtain ⟨made, hm, hf⟩ := this
  exact ⟨made, hm, by simpa using hf⟩

def ProjectedFrom (source : Flow) (projection : Projection) (c : String × Column) : Prop :=
  c.1 = projection.aliasName ∧ source.column? projection.source = some c.2

theorem projectColumn_clean {source : Flow} {path : String} {state : List (String × Column) × List String}
    {item : Projection × Nat} (h : (projectColumn source path state item).notes = []) :
    ∃ c grain, (projectColumn source path state item).value = (state.1 ++ [c], grain) ∧
      ProjectedFrom source item.1 c ∧ item.1.aliasName ∉ state.1.map (·.1) := by
  unfold projectColumn at h ⊢
  simp only [notes_bind, List.append_eq_nil_iff] at h
  obtain ⟨column, hc⟩ := requireColumn_clean h.1
  by_cases hdup : hasColumn state.1 item.1.aliasName = true
  · simp [hdup] at h
  · refine ⟨(item.1.aliasName, column),
      if item.1.source ∈ source.grain then state.2 ++ [item.1.aliasName] else state.2, ?_, ⟨rfl, hc⟩, ?_⟩
    · simp [hdup, hc]
    · rwa [hasColumn_iff] at hdup

theorem projectFlow_clean {columns : List Projection} {source : Flow} {path : String}
    (h : (projectFlow columns source path).notes = []) :
    List.Forall₂ (ProjectedFrom source) columns (projectFlow columns source path).value.columns ∧
      (columns.map (·.aliasName)).Nodup := by
  simp only [projectFlow, notes_bind, notes_pure, List.append_nil, List.append_eq_nil_iff] at h
  have := foldlM_clean h.1
    (P := fun done state => List.Forall₂ (ProjectedFrom source) (done.map (·.1)) state.1 ∧
      state.1.map (·.1) = (done.map (·.1)).map (·.aliasName) ∧ (state.1.map (·.1)).Nodup)
    ⟨.nil, rfl, List.nodup_nil⟩
    (fun done x rest t _ hp hx => by
      obtain ⟨c, grain, hc, hs, hnew⟩ := projectColumn_clean hx
      rw [hc]
      refine ⟨?_, ?_, ?_⟩
      · rw [List.map_append]
        exact forall₂_snoc hp.1 hs
      · simp [hp.2.1, hs.1]
      · rw [List.map_append]
        refine List.nodup_append.mpr ⟨hp.2.2, by simp, fun a ha b hb => ?_⟩
        have hb : b = x.1.aliasName := by simpa [hs.1] using hb
        exact fun e => hnew (hb ▸ e ▸ ha))
  obtain ⟨h1, h2, h3⟩ := this
  refine ⟨by simpa [projectFlow] using h1, ?_⟩
  rw [h2] at h3
  simpa using h3

theorem joinColumn_clean {path : String} {columns : List (String × Column)} {item : String × Column}
    (h : (joinColumn path columns item).notes = []) :
    (joinColumn path columns item).value = columns ++ [item] ∧ item.1 ∉ columns.map (·.1) := by
  unfold joinColumn at h ⊢
  by_cases hdup : hasColumn columns item.1 = true
  · simp [hdup] at h
  · exact ⟨by simp [hdup], by rwa [hasColumn_iff] at hdup⟩

theorem joinFlow_clean {relationId leftKey rightKey : String} {joinType : JoinType} {left right : Flow} {path : String}
    {selected : List String}
    (h : (v.joinFlow relationId leftKey rightKey joinType left right path selected).notes = []) :
    (v.joinFlow relationId leftKey rightKey joinType left right path selected).value.columns =
        left.columns ++ right.columns ∧ ∀ c ∈ right.columns, c.1 ∉ left.names := by
  have hf : (right.columns.foldlM (joinColumn path) left.columns).notes = [] := by
    unfold joinFlow at h
    simp only [notes_bind, List.append_eq_nil_iff] at h
    split at h
    · simp only [notes_bind, notes_pure, List.append_eq_nil_iff] at h
      exact h.2.2.2.1
    · simp only [notes_bind, notes_pure, List.append_eq_nil_iff] at h
      exact h.2.2.2.2.1
  have := foldlM_clean hf
    (P := fun done columns => columns = left.columns ++ done ∧ ∀ c ∈ done, c.1 ∉ left.names)
    ⟨(List.append_nil _).symm, by simp⟩
    (fun done x rest t _ hp hx => by
      obtain ⟨rfl, hp⟩ := hp
      obtain ⟨hv, hn⟩ := joinColumn_clean hx
      refine ⟨by rw [hv, List.append_assoc], fun c hc => ?_⟩
      rcases List.mem_append.mp hc with hc | hc
      · exact hp c hc
      · rw [List.mem_singleton.mp hc]
        intro hin
        exact hn (by rw [List.map_append]; exact List.mem_append_left _ hin))
  refine ⟨?_, this.2⟩
  rw [← this.1]
  unfold joinFlow
  simp only [value_bind]
  split <;> rfl

/-! ## Nodes -/

def SameConstraints (source flow : Flow) : Prop :=
  flow.memberConstraints = source.memberConstraints ∧ flow.timeConstraints = source.timeConstraints

/-- A member constraint of a join's right input, as the join's flow has it. -/
def joinedMember (joinType : JoinType) (c : MemberConstraint) : MemberConstraint :=
  { c with sourceEnforcing := c.sourceEnforcing && joinType = .inner }

def joinedTime (joinType : JoinType) (c : TimeConstraint) : TimeConstraint :=
  { c with sourceEnforcing := c.sourceEnforcing && joinType = .inner }

variable (v) in
/-- The flow of a node with nothing noted on it, from those of its dependencies. -/
inductive NodeFlow : NodeParameters → List Flow → Flow → Prop
  | select {entityId : String} {columns : List String} {flow : Flow}
      (selected : List.Forall₂ (Selected v entityId) columns flow.columns) (members : flow.memberConstraints = [])
      (times : flow.timeConstraints = []) : NodeFlow (.select entityId columns) [] flow
  | filter {predicate : Predicate} {source : Flow} {column : Column}
      (found : source.column? predicate.column = some column) (valid : PredicateValid v predicate column) :
      NodeFlow (.filter predicate) [source] (v.filteredFlow predicate source)
  | aggregate {groupBy : List String} {measures : List AggregateMeasure} {source flow : Flow}
      (columns : Kept source groupBy measures (MeasuredFrom source) flow.columns)
      (same : SameConstraints source flow) : NodeFlow (.aggregate groupBy measures) [source] flow
  | pivot {index : List String} {column value : String} {values : List String} {bindings : List PivotValueBinding}
      {source flow : Flow} (columns : Pivoted source index values flow.columns) (same : SameConstraints source flow) :
      NodeFlow (.pivot index column value values bindings) [source] flow
  | derive {columns : List DerivedColumn} {source flow : Flow} {made : List (String × Column)}
      (appended : flow.columns = source.columns ++ made)
      (derived : List.Forall₂ (fun (d : DerivedColumn) c => c.1 = d.output ∧ c.2.constraintEligible = false) columns made)
      (same : SameConstraints source flow) : NodeFlow (.derive columns) [source] flow
  | project {columns : List Projection} {source flow : Flow}
      (projected : List.Forall₂ (ProjectedFrom source) columns flow.columns)
      (aliases : (columns.map (·.aliasName)).Nodup) (same : SameConstraints source flow) :
      NodeFlow (.project columns) [source] flow
  | sort {keys : List SortKey} {source flow : Flow} (columns : flow.columns = source.columns)
      (same : SameConstraints source flow) : NodeFlow (.sort keys) [source] flow
  | join {relationId leftKey rightKey : String} {joinType : JoinType} {left right flow : Flow}
      (columns : flow.columns = left.columns ++ right.columns) (apart : ∀ c ∈ right.columns, c.1 ∉ left.names)
      (members : flow.memberConstraints = left.memberConstraints ++ right.memberConstraints.map (joinedMember joinType))
      (times : flow.timeConstraints = left.timeConstraints ++ right.timeConstraints.map (joinedTime joinType)) :
      NodeFlow (.join relationId leftKey rightKey joinType) [left, right] flow

/-- Every dependency of a node other than a SELECT has a flow. -/
theorem inputs_of_clean {selected : List String} {flows : List (String × Flow)} {node : SQGNode} {index : Nat}
    (h : (v.validateNode selected flows node index).notes = []) (hs : node.operator ≠ .select) :
    ∃ inputs, (node.dependencies.mapM fun d => flows.lookup d) = some inputs ∧
      inputs.length = node.dependencies.length := by
  cases hm : node.dependencies.mapM fun d => flows.lookup d with
  | some inputs => exact ⟨inputs, rfl, (option_mapM_eq_some.mp hm).length_eq.symm⟩
  | none =>
    unfold validateNode at h
    split at h
    · next heq _ => exact absurd heq hs
    · simp [hm] at h

theorem validateNode_clean {selected : List String} {flows : List (String × Flow)} {node : SQGNode} {index : Nat}
    (h : (v.validateNode selected flows node index).notes = []) (hk : node.operator = node.parameters.kind)
    (ha : node.dependencies.length = node.operator.arity) :
    ∃ inputs flow, (node.dependencies.mapM fun d => flows.lookup d) = some inputs ∧
      (v.validateNode selected flows node index).value = some flow ∧ NodeFlow v node.parameters inputs flow := by
  have hin := inputs_of_clean h
  obtain ⟨id, operator, dependencies, parameters⟩ := node
  dsimp only at hk ha hin ⊢
  subst hk
  cases parameters with
  | select entityId columns =>
    obtain rfl : dependencies = [] := List.length_eq_zero_iff.mp ha
    exact ⟨[], _, rfl, rfl, .select (selectFlow_clean (by simpa [validateNode, NodeParameters.kind] using h)) rfl rfl⟩
  | filter predicate =>
    obtain ⟨inputs, hm, hlen⟩ := hin (by simp [NodeParameters.kind])
    obtain ⟨source, rfl⟩ := List.length_eq_one_iff.mp (hlen.trans ha)
    simp only [validateNode, NodeParameters.kind, hm, notes_bind, notes_pure, List.append_nil] at h ⊢
    obtain ⟨column, hc, hv⟩ := validatePredicate_clean h
    exact ⟨[source], _, rfl, rfl, .filter hc hv⟩
  | aggregate groupBy measures =>
    obtain ⟨inputs, hm, hlen⟩ := hin (by simp [NodeParameters.kind])
    obtain ⟨source, rfl⟩ := List.length_eq_one_iff.mp (hlen.trans ha)
    simp only [validateNode, NodeParameters.kind, hm, notes_map, value_map] at h ⊢
    exact ⟨[source], _, rfl, rfl, .aggregate (aggregateFlow_clean h) ⟨rfl, rfl⟩⟩
  | pivot index column value values bindings =>
    obtain ⟨inputs, hm, hlen⟩ := hin (by simp [NodeParameters.kind])
    obtain ⟨source, rfl⟩ := List.length_eq_one_iff.mp (hlen.trans ha)
    simp only [validateNode, NodeParameters.kind, hm, notes_map, value_map] at h ⊢
    exact ⟨[source], _, rfl, rfl, .pivot (pivotFlow_clean h) ⟨rfl, rfl⟩⟩
  | derive columns =>
    obtain ⟨inputs, hm, hlen⟩ := hin (by simp [NodeParameters.kind])
    obtain ⟨source, rfl⟩ := List.length_eq_one_iff.mp (hlen.trans ha)
    simp only [validateNode, NodeParameters.kind, hm, notes_map, value_map] at h ⊢
    obtain ⟨made, hmade, hd⟩ := deriveFlow_clean h
    exact ⟨[source], _, rfl, rfl, .derive hmade hd ⟨rfl, rfl⟩⟩
  | project columns =>
    obtain ⟨inputs, hm, hlen⟩ := hin (by simp [NodeParameters.kind])
    obtain ⟨source, rfl⟩ := List.length_eq_one_iff.mp (hlen.trans ha)
    simp only [validateNode, NodeParameters.kind, hm, notes_map, value_map] at h ⊢
    exact ⟨[source], _, rfl, rfl, .project (projectFlow_clean h).1 (projectFlow_clean h).2 ⟨rfl, rfl⟩⟩
  | sort keys =>
    obtain ⟨inputs, hm, hlen⟩ := hin (by simp [NodeParameters.kind])
    obtain ⟨source, rfl⟩ := List.length_eq_one_iff.mp (hlen.trans ha)
    simp only [validateNode, NodeParameters.kind, hm, notes_map, value_map] at h ⊢
    exact ⟨[source], _, rfl, rfl, .sort rfl ⟨rfl, rfl⟩⟩
  | join relationId leftKey rightKey joinType =>
    obtain ⟨inputs, hm, hlen⟩ := hin (by simp [NodeParameters.kind])
    obtain ⟨left, right, rfl⟩ := List.length_eq_two.mp (hlen.trans ha)
    simp only [validateNode, NodeParameters.kind, hm, notes_map, value_map] at h ⊢
    obtain ⟨hc, hn⟩ := joinFlow_clean h
    refine ⟨[left, right], _, rfl, rfl, .join hc hn ?_ ?_⟩
    · unfold joinFlow
      simp only [value_bind]
      split <;> rfl
    · unfold joinFlow
      simp only [value_bind]
      split <;> rfl

/-- What holds before any node, and goes on to each node's flow, holds of all the flows. -/
theorem flowsOf_clean {selected : List String} {nodes : List SQGNode} (h : (v.flowsOf selected nodes).notes = [])
    (hnodes : ∀ node ∈ nodes, node.operator = node.parameters.kind ∧ node.dependencies.length = node.operator.arity)
    {P : List SQGNode → List (String × Flow) → Prop} (h0 : P [] [])
    (hstep : ∀ done node rest flows inputs flow, nodes = done ++ node :: rest → P done flows →
      (node.dependencies.mapM fun d => flows.lookup d) = some inputs → NodeFlow v node.parameters inputs flow →
      P (done ++ [node]) ((node.id, flow) :: flows)) :
    P nodes (v.flowsOf selected nodes).value := by
  have := foldlM_clean h (P := fun done flows => P (done.map (·.1)) flows) h0
    (fun done x rest flows hx hp hc => by
      have hsplit : nodes = done.map (·.1) ++ x.1 :: rest.map (·.1) := by
        have := congrArg (List.map (·.1)) hx
        simpa using this
      have hmem : x.1 ∈ nodes := by rw [hsplit]; simp
      unfold flowStep at hc ⊢
      simp only [notes_bind, List.append_eq_nil_iff, value_bind] at hc ⊢
      obtain ⟨inputs, flow, hm, hv, hn⟩ := validateNode_clean hc.1 (hnodes _ hmem).1 (hnodes _ hmem).2
      rw [hv, List.map_append]
      exact hstep _ _ _ _ inputs flow hsplit hp hm hn)
  simpa [flowsOf] using this

end SQGValidator

end DataNexus.Semantic
