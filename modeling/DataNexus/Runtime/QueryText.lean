/-
  DataNexus.Runtime.QueryText — what `_build_query` returns, for every operator.

  Whatever `buildQuery` returns is the statement of its spec (`buildQuery_builds`). So
  - `parameters_and_identifiers`: the lexer reads the statement's names and markers, each
    name as it was given and the parameters in the order of their markers. The names are
    the spec's and the inputs' columns, and the relation an aggregation reads.
  - `output_names_apart`: the output columns differ by more than the case of A to Z, so
    the output may be an input again.
-/

import DataNexus.Runtime.ExtensionStatements

namespace DataNexus.Runtime

open Lib Lib.QuotedText

/-- A name the spec gives, or a column of an input. -/
def Given (spec : OperatorSpec) (inputs : List Schema) (n : String) : Prop :=
  n ∈ spec.identifiers ∨ ∃ schema ∈ inputs, n ∈ schema.columnNames

/-- The relation that `_aggregate_query` names between quotes. -/
def OperatorKind.sourceRelation : OperatorKind → Option String
  | .aggregate | .summarize => some "input_0"
  | .resample => some "bucketed"
  | _ => none

def Allowed (spec : OperatorSpec) (inputs : List Schema) (n : String) : Prop :=
  Given spec inputs n ∨ spec.kind.sourceRelation = some n

/-! ## Names that are apart -/

theorem rejectCollisionsFrom_ok {message : String} {seen : List (String × String)} {ns : List String}
    (hseen : (seen.map (·.1)).Nodup) (h : rejectCollisionsFrom message seen ns = .ok ()) :
    (seen.map (·.1) ++ ns.map normalizeIdentifier).Nodup := by
  induction ns generalizing seen with
  | nil => simpa using hseen
  | cons n ns ih =>
    rw [rejectCollisionsFrom] at h
    split at h
    · cases h
    · rename_i hnone
      have hnew : normalizeIdentifier n ∉ seen.map (·.1) := by
        intro hmem
        obtain ⟨entry, hentry, heq⟩ := List.mem_map.mp hmem
        rw [List.lookup_eq_none_iff] at hnone
        exact absurd (hnone entry hentry) (by simp [heq])
      have hnext : ((seen ++ [(normalizeIdentifier n, n)]).map (·.1)).Nodup := by
        rw [List.map_append]
        exact nodup_snoc hseen hnew
      simpa using ih hnext h

theorem rejectCollisionsFrom_isOk {message : String} {seen : List (String × String)} {ns : List String}
    (h : (seen.map (·.1) ++ ns.map normalizeIdentifier).Nodup) : rejectCollisionsFrom message seen ns = .ok () := by
  induction ns generalizing seen with
  | nil => rfl
  | cons n ns ih =>
    have hnone : seen.lookup (normalizeIdentifier n) = none := by
      rw [List.lookup_eq_none_iff]
      intro entry hentry
      have hdisjoint := (List.nodup_append.mp h).2.2 _ (List.mem_map_of_mem hentry) (normalizeIdentifier n) (by simp)
      simpa using Ne.symm hdisjoint
    rw [rejectCollisionsFrom, hnone]
    exact ih (by simpa using h)

/-- The check of an input's columns passes where they are apart. -/
theorem rejectNormalizedCollisions_iff {ns : List String} {message : String} :
    rejectNormalizedCollisions ns message = .ok () ↔ (ns.map normalizeIdentifier).Nodup := by
  constructor
  · intro h
    have hseen : (([] : List (String × String)).map (·.1)).Nodup := .nil
    simpa using rejectCollisionsFrom_ok hseen h
  · intro h
    exact rejectCollisionsFrom_isOk (by simpa using h)

section

variable {lib : Libraries} {spec : OperatorSpec} {inputs : List Schema} {built : BuiltQuery}

theorem allowed_column {schema : Schema} (h : schema ∈ inputs) : ∀ c ∈ schema.columnNames, Allowed spec inputs c :=
  fun _ hc => .inl (.inr ⟨schema, h, hc⟩)

theorem allowed_identifier {n : String} (h : n ∈ spec.identifiers) : Allowed spec inputs n := .inl (.inl h)

theorem expression_identifier {item : NamedExpression} (h : item ∈ spec.expressions) : item.name ∈ spec.identifiers := by
  simp only [OperatorSpec.identifiers, List.mem_append, List.mem_map]
  exact .inl (.inl (.inl (.inl (.inl (.inl (.inl (.inl (.inl (.inl (.inl (.inr ⟨item, h, rfl⟩)))))))))))

theorem aggregate_identifier {a : AggregateSpec} (h : a ∈ spec.aggregates) : a.name ∈ spec.identifiers := by
  simp only [OperatorSpec.identifiers, List.mem_append, List.mem_map]
  exact .inl (.inl (.inl (.inl (.inl (.inl (.inl (.inl (.inl (.inl (.inr ⟨a, h, rfl⟩))))))))))

/-- The built query is the statement of the spec, whose columns are apart. -/
structure Stated (lib : Libraries) (spec : OperatorSpec) (inputs : List Schema) (built : BuiltQuery) : Prop where
  builds : Builds (Allowed spec inputs) built (statement lib spec inputs)
  apart : (spec.kind = .distinct → spec.columns.Nodup) →
    ((statement lib spec inputs).columns.map normalizeIdentifier).Nodup

theorem some_map_ok {x : Except BuildFailure BuiltQuery} (h : some <$> x = .ok (some built)) : x = .ok built := by
  obtain ⟨query, hquery, heq⟩ := map_eq_ok.mp h
  rw [hquery, Option.some.inj heq]

theorem allowed_payload_identifier {n : String} (h : n ∈ (spec.payload.window.toList.flatMap fun w => w.output :: w.column.toList) ++
      (spec.payload.date.toList.flatMap fun d => [d.column, d.output]) ++
      (spec.payload.unpivot.toList.flatMap fun u => u.columns ++ [u.nameColumn, u.valueColumn]) ++
      (spec.payload.explode.toList.flatMap fun e => [e.column, e.output])) : Allowed spec inputs n := by
  refine allowed_identifier ?_
  simp only [OperatorSpec.identifiers, List.mem_append] at h ⊢
  tauto

section

variable {schema : Schema} {rest : List Schema}

/-- A statement of the input's columns, all of them. -/
theorem Stated.same (hbuilds : Builds (Allowed spec (schema :: rest)) built (statement lib spec (schema :: rest)))
    (hcolumns : (statement lib spec (schema :: rest)).columns = schema.columnNames)
    (hapart : (schema.columnNames.map normalizeIdentifier).Nodup) : Stated lib spec (schema :: rest) built :=
  ⟨hbuilds, fun _ => by rw [hcolumns]; exact hapart⟩

theorem stated_set (hkind : spec.kind.isSetOperator = true) (hapart : (schema.columnNames.map normalizeIdentifier).Nodup)
    (h : setQuery spec.kind (schema :: rest) = .ok built) : Stated lib spec (schema :: rest) built := by
  have hstatement : statement lib spec (schema :: rest) = .select [.plain "SELECT "] [.star schema.columnNames]
      [.plain (" FROM input_0 " ++ setText spec.kind ++ " SELECT * FROM input_1")] := by
    cases hk : spec.kind <;> rw [hk] at hkind <;> simp only [statement, hk, List.headD_cons] <;> cases hkind
  refine .same ?_ ?_ hapart
  · rw [hstatement]
    exact setQuery_builds h
  · rw [hstatement]
    simp [Query.columns, SelectItem.star]

theorem stated_distinct (hkind : spec.kind = .distinct) (hapart : (schema.columnNames.map normalizeIdentifier).Nodup)
    (h : distinctQuery schema.columnNames spec = .ok built) : Stated lib spec (schema :: rest) built := by
  have hstatement : statement lib spec (schema :: rest) = .select [.plain "SELECT DISTINCT "]
      (if spec.columns.isEmpty then [.star schema.columnNames] else spec.columns.map .column) [.plain " FROM input_0"] := by
    simp only [statement, hkind, List.headD_cons]
  have hallowed : ∀ c ∈ schema.columnNames, Allowed spec (schema :: rest) c := allowed_column (by simp)
  obtain ⟨hbuilds, hmem⟩ := distinctQuery_builds hallowed h
  refine ⟨hstatement ▸ hbuilds, fun hunique => ?_⟩
  rw [hstatement]
  -- The fold is one to one on the input's columns, so it is on some of them.
  have hinjective : ∀ c ∈ schema.columnNames, ∀ d ∈ schema.columnNames, normalizeIdentifier c = normalizeIdentifier d → c = d :=
    fun c hc d hd he => List.inj_on_of_nodup_map hapart hc hd he
  by_cases hempty : spec.columns = []
  · simpa [Query.columns, hempty, SelectItem.star] using hapart
  · have hcolumns : (if spec.columns.isEmpty then [SelectItem.star schema.columnNames] else spec.columns.map .column) =
        spec.columns.map .column := if_neg (by simpa using hempty)
    have hselected : (spec.columns.map normalizeIdentifier).Nodup :=
      (hunique hkind).map_on fun c hc d hd he => hinjective c (hmem c hc) d (hmem d hd) he
    rw [hcolumns]
    simpa [Query.columns, SelectItem.column, List.flatMap_map] using hselected

theorem stated_pick (hkind : spec.kind = .deduplicate ∨ spec.kind = .pick)
    (hapart : (schema.columnNames.map normalizeIdentifier).Nodup)
    (h : pickQuery schema.columnNames schema spec = .ok built) : Stated lib spec (schema :: rest) built := by
  have hstatement : statement lib spec (schema :: rest) = pickStatement schema spec := by
    rcases hkind with hkind | hkind <;> simp only [statement, hkind, List.headD_cons]
  refine .same ?_ ?_ hapart
  · rw [hstatement]
    exact pickQuery_builds (allowed_column (by simp)) h
  · rw [hstatement]
    rfl

theorem stated_window (hkind : spec.kind = .window) (hapart : (schema.columnNames.map normalizeIdentifier).Nodup)
    (h : windowQuery lib schema.columnNames schema spec = .ok built) : Stated lib spec (schema :: rest) built := by
  cases hwindow : spec.payload.window with
  | none => simp [windowQuery, hwindow] at h
  | some window =>
    have hstatement : statement lib spec (schema :: rest) = windowStatement schema spec window := by
      simp only [statement, hkind, hwindow, List.headD_cons, Option.elim]
    have houtput : Allowed spec (schema :: rest) window.output :=
      allowed_payload_identifier (by simp [hwindow])
    obtain ⟨hbuilds, hnew⟩ := windowQuery_builds hwindow (allowed_column (by simp)) houtput h
    refine ⟨hstatement ▸ hbuilds, fun _ => ?_⟩
    rw [hstatement]
    exact apart_concat hapart hnew

theorem stated_sample (hkind : spec.kind = .sample) (hapart : (schema.columnNames.map normalizeIdentifier).Nodup)
    (h : sampleQuery schema spec = .ok built) : Stated lib spec (schema :: rest) built := by
  have hstatement : statement lib spec (schema :: rest) =
      .sample schema.columnNames (limitParameter spec.payload.sampleSeed) (limitParameter spec.limit) := by
    simp only [statement, hkind, List.headD_cons]
  refine .same ?_ ?_ hapart
  · rw [hstatement]
    exact sampleQuery_builds (allowed_column (by simp)) h
  · rw [hstatement]
    rfl

theorem stated_date (hkind : spec.kind = .date ∨ spec.kind = .resample)
    (hapart : (schema.columnNames.map normalizeIdentifier).Nodup)
    (h : dateQuery lib schema.columnNames schema spec = .ok built) : Stated lib spec (schema :: rest) built := by
  cases hdate : spec.payload.date with
  | none => simp [dateQuery, hdate] at h
  | some date =>
    have hstatement : statement lib spec (schema :: rest) = dateStatement lib spec.isV1 schema spec date := by
      rcases hkind with hkind | hkind <;> simp only [statement, hkind, hdate, List.headD_cons, Option.elim]
    have houtput : Allowed spec (schema :: rest) date.output := allowed_payload_identifier (by simp [hdate])
    have hsource : spec.kind ≠ .date → Allowed spec (schema :: rest) "bucketed" := by
      intro hne
      rcases hkind with hkind | hkind
      · exact absurd hkind hne
      · exact .inr (by rw [hkind]; rfl)
    obtain ⟨hbuilds, hcolumns⟩ := dateQuery_builds hdate (allowed_column (by simp)) houtput rfl hsource
      (fun a ha => allowed_identifier (aggregate_identifier ha)) hapart h
    exact ⟨hstatement ▸ hbuilds, fun _ => hstatement ▸ hcolumns⟩

theorem stated_aggregate (hkind : spec.kind = .aggregate ∨ spec.kind = .summarize)
    (h : aggregateQuery lib spec.isV1 schema.columnNames schema spec = .ok built) :
    Stated lib spec (schema :: rest) built := by
  have hstatement : statement lib spec (schema :: rest) = aggregateStatement lib spec.isV1 schema [] spec "input_0" := by
    rcases hkind with hkind | hkind <;> simp only [statement, hkind, List.headD_cons]
  have hsource : Allowed spec (schema :: rest) "input_0" := by
    rcases hkind with hkind | hkind <;> exact .inr (by rw [hkind]; rfl)
  have hopens : Opens ([] ++ [(.plain "SELECT " : Place Parameter)]) := opens_fixed (by decide)
  obtain ⟨hbuilds, hcolumns⟩ := aggregateQuery_builds hopens (by simp) (allowed_column (by simp)) hsource
    (fun a ha => allowed_identifier (aggregate_identifier ha)) h
  have hbuilt : (text ([] : List (Place Parameter)) ++ built.1, literals ([] : List (Place Parameter)) ++ built.2) = built := by
    simp
  rw [hbuilt] at hbuilds
  exact ⟨hstatement ▸ hbuilds, fun _ => hstatement ▸ hcolumns⟩

theorem stated_explode (hkind : spec.kind = .explode) (hapart : (schema.columnNames.map normalizeIdentifier).Nodup)
    (h : explodeQuery lib schema.columnNames schema spec = .ok built) : Stated lib spec (schema :: rest) built := by
  cases hexplode : spec.payload.explode with
  | none => simp [explodeQuery, hexplode] at h
  | some explode =>
    have hstatement : statement lib spec (schema :: rest) =
        .select [.plain "SELECT "] [.star schema.columnNames, explodeItem explode] [.plain " FROM input_0"] := by
      simp only [statement, hkind, hexplode, List.headD_cons, Option.toList_some, List.map_cons, List.map_nil]
    have houtput : Allowed spec (schema :: rest) explode.output := allowed_payload_identifier (by simp [hexplode])
    obtain ⟨hbuilds, hnew⟩ := explodeQuery_builds hexplode (allowed_column (by simp)) houtput h
    refine ⟨hstatement ▸ hbuilds, fun _ => ?_⟩
    rw [hstatement]
    simpa [Query.columns, SelectItem.star, explodeItem, SelectItem.aliased] using apart_concat hapart hnew

theorem stated_unpivot (hkind : spec.kind = .unpivot) (hapart : (schema.columnNames.map normalizeIdentifier).Nodup)
    (h : unpivotQuery lib schema.columnNames schema spec = .ok built) : Stated lib spec (schema :: rest) built := by
  cases hunpivot : spec.payload.unpivot with
  | none => simp [unpivotQuery, hunpivot] at h
  | some unpivot =>
    have hstatement : statement lib spec (schema :: rest) = .unionAll (unpivot.columns.map (unpivotItems schema unpivot)) := by
      simp only [statement, hkind, hunpivot, List.headD_cons, Option.elim]
    have hallowed : ∀ c ∈ schema.columnNames, Allowed spec (schema :: rest) c := allowed_column (by simp)
    have hnamed : Allowed spec (schema :: rest) unpivot.nameColumn := allowed_payload_identifier (by simp [hunpivot])
    have hvalued : Allowed spec (schema :: rest) unpivot.valueColumn := allowed_payload_identifier (by simp [hunpivot])
    have hbuilds := unpivotQuery_builds hunpivot hallowed hnamed hvalued h
    refine ⟨hstatement ▸ hbuilds, fun _ => ?_⟩
    obtain ⟨-, hname, hvalue, -⟩ := unpivotQuery_ok hunpivot h
    rw [hstatement]
    -- The first branch names the columns: the retained ones, and the two new ones.
    cases hcolumns : unpivot.columns with
    | nil => exact .nil
    | cons c cs =>
      have hretained : (((schema.columnNames ++ [unpivot.nameColumn]) ++ [unpivot.valueColumn]).map normalizeIdentifier).Nodup :=
        apart_concat (apart_concat hapart hname) hvalue
      have hsub : (schema.columnNames.filter (!unpivot.columns.contains ·) ++ [unpivot.nameColumn] ++
          [unpivot.valueColumn]).Sublist (schema.columnNames ++ [unpivot.nameColumn] ++ [unpivot.valueColumn]) :=
        (List.filter_sublist.append_right _).append_right _
      have hfirst := (hsub.map normalizeIdentifier).nodup hretained
      simpa [Query.columns, unpivotItems, SelectItem.column, SelectItem.aliased, List.flatMap_map, hcolumns] using hfirst

theorem stated_impute (hkind : spec.kind = .impute) (hapart : (schema.columnNames.map normalizeIdentifier).Nodup)
    (h : imputeQuery lib schema.columnNames schema spec = .ok built) : Stated lib spec (schema :: rest) built := by
  cases himpute : spec.payload.impute with
  | none => simp [imputeQuery, himpute] at h
  | some impute =>
    have hstatement : statement lib spec (schema :: rest) = .select [.plain "SELECT "]
        (schema.columnNames.map (imputeItem impute.column (replacementOf lib schema impute))) [.plain " FROM input_0"] := by
      simp only [statement, hkind, himpute, List.headD_cons, Option.elim]
    refine .same ?_ ?_ hapart
    · rw [hstatement]
      exact imputeQuery_builds himpute (allowed_column (by simp)) (List.Nodup.of_map _ hapart) h
    · have hitem : ∀ c, (imputeItem impute.column (replacementOf lib schema impute) c).columns = [c] := by
        intro c
        unfold imputeItem
        split
        · rename_i hc
          simp [SelectItem.aliased, hc]
        · rfl
      rw [hstatement]
      simp [Query.columns, List.flatMap_map, hitem]

theorem stated_extension (hapart : (schema.columnNames.map normalizeIdentifier).Nodup)
    (h : buildExtensionQuery lib schema.columnNames schema spec (schema :: rest) = .ok (some built)) :
    Stated lib spec (schema :: rest) built := by
  unfold buildExtensionQuery at h
  split at h
  case h_1 hkind | h_2 hkind | h_3 hkind | h_4 hkind =>
    exact stated_set (by rw [hkind]; rfl) hapart (some_map_ok h)
  case h_5 hkind => exact stated_distinct hkind hapart (some_map_ok h)
  case h_6 hkind => exact stated_pick (.inl hkind) hapart (some_map_ok h)
  case h_7 hkind => exact stated_pick (.inr hkind) hapart (some_map_ok h)
  case h_8 hkind => exact stated_window hkind hapart (some_map_ok h)
  case h_9 hkind => exact stated_sample hkind hapart (some_map_ok h)
  case h_10 hkind => exact stated_date (.inl hkind) hapart (some_map_ok h)
  case h_11 hkind => exact stated_date (.inr hkind) hapart (some_map_ok h)
  case h_12 hkind => exact stated_aggregate (.inr hkind) (some_map_ok h)
  case h_13 hkind => exact stated_explode hkind hapart (some_map_ok h)
  case h_14 hkind => exact stated_unpivot hkind hapart (some_map_ok h)
  case h_15 hkind => exact stated_impute hkind hapart (some_map_ok h)
  case h_16 => cases h

/-- The two sides of a join share no name. -/
theorem apart_join {left right : List String} (hleft : (left.map normalizeIdentifier).Nodup)
    (hright : (right.map normalizeIdentifier).Nodup)
    (hshared : ∀ c ∈ left, normalizeIdentifier c ∉ right.map normalizeIdentifier) :
    ((left ++ right).map normalizeIdentifier).Nodup := by
  rw [List.map_append, List.nodup_append]
  refine ⟨hleft, hright, ?_⟩
  intro a ha b hb hab
  obtain ⟨c, hc, rfl⟩ := List.mem_map.mp ha
  exact hshared c hc (hab ▸ hb)

theorem stated_join (hkind : spec.kind = .join)
    (hapart : ∀ s ∈ schema :: rest, (s.columnNames.map normalizeIdentifier).Nodup)
    (h : joinQuery spec (schema :: rest) = .ok built) : Stated lib spec (schema :: rest) built := by
  cases rest with
  | nil =>
    unfold joinQuery at h
    cases hjoin : spec.joinType <;> simp [hjoin] at h
  | cons right rest =>
    have hstatement : statement lib spec (schema :: right :: rest) = joinStatement schema spec right := by
      simp only [statement, hkind, List.headD_cons, List.drop_succ_cons, List.drop_zero]
    have hleft : ∀ c ∈ schema.columnNames, Allowed spec (schema :: right :: rest) c := allowed_column (by simp)
    have hright : ∀ c ∈ right.columnNames, Allowed spec (schema :: right :: rest) c := allowed_column (by simp)
    obtain ⟨hbuilds, hshared⟩ := joinQuery_builds hleft hright h
    refine ⟨hstatement ▸ hbuilds, fun _ => ?_⟩
    rw [hstatement]
    simpa [Query.columns, joinStatement] using
      apart_join (hapart schema (by simp)) (hapart right (by simp)) hshared

theorem stated_select (hkind : spec.kind = .select ∨ spec.kind = .project)
    (h : selectQuery lib spec.isV1 schema.columnNames schema spec = .ok built) :
    Stated lib spec (schema :: rest) built := by
  have hstatement : statement lib spec (schema :: rest) = .select [.plain "SELECT "]
      (spec.columns.map .column ++ spec.expressions.map (expressionItem lib spec.isV1 schema)) [.plain " FROM input_0"] := by
    rcases hkind with hkind | hkind <;> simp only [statement, hkind, List.headD_cons]
  have hallowed : ∀ c ∈ schema.columnNames, Allowed spec (schema :: rest) c := allowed_column (by simp)
  obtain ⟨hbuilds, hcolumns⟩ := selectQuery_builds hallowed
    (fun item hitem => allowed_identifier (expression_identifier hitem)) h
  exact ⟨hstatement ▸ hbuilds, fun _ => hstatement ▸ hcolumns⟩

theorem stated_derive (hkind : spec.kind = .derive) (hapart : (schema.columnNames.map normalizeIdentifier).Nodup)
    (h : deriveQuery lib spec.isV1 schema.columnNames schema spec = .ok built) :
    Stated lib spec (schema :: rest) built := by
  have hstatement : statement lib spec (schema :: rest) = .select [.plain "SELECT "]
      (.star schema.columnNames :: spec.expressions.map (expressionItem lib spec.isV1 schema)) [.plain " FROM input_0"] := by
    simp only [statement, hkind, List.headD_cons]
  have hallowed : ∀ c ∈ schema.columnNames, Allowed spec (schema :: rest) c := allowed_column (by simp)
  obtain ⟨hbuilds, hcolumns⟩ := deriveQuery_builds hallowed
    (fun item hitem => allowed_identifier (expression_identifier hitem)) hapart h
  exact ⟨hstatement ▸ hbuilds, fun _ => hstatement ▸ hcolumns⟩

theorem stated_pivot (hkind : spec.kind = .pivot) (h : pivotQuery schema.columnNames spec = .ok built) :
    Stated lib spec (schema :: rest) built := by
  have hstatement : statement lib spec (schema :: rest) = pivotStatement spec := by
    simp only [statement, hkind]
  have hvalues : ∀ value ∈ spec.pivotValues, Allowed spec (schema :: rest) value := by
    intro value hvalue
    refine allowed_identifier ?_
    simp only [OperatorSpec.identifiers, List.mem_append]
    tauto
  have hallowed : ∀ c ∈ schema.columnNames, Allowed spec (schema :: rest) c := allowed_column (by simp)
  obtain ⟨hbuilds, hcolumns⟩ := pivotQuery_builds hallowed hvalues h
  exact ⟨hstatement ▸ hbuilds, fun _ => hstatement ▸ hcolumns⟩

theorem stated_common (hapart : ∀ s ∈ schema :: rest, (s.columnNames.map normalizeIdentifier).Nodup)
    (h : buildCommonQuery lib schema.columnNames schema spec (schema :: rest) = .ok built) :
    Stated lib spec (schema :: rest) built := by
  have hschema := hapart schema (by simp)
  have hallowed : ∀ c ∈ schema.columnNames, Allowed spec (schema :: rest) c := allowed_column (by simp)
  unfold buildCommonQuery at h
  split at h
  case h_1 hkind => exact stated_select (.inl hkind) h
  case h_2 hkind => exact stated_select (.inr hkind) h
  case h_3 hkind =>
    have hstatement : statement lib spec (schema :: rest) = .select [.plain "SELECT "] [.star schema.columnNames]
        (.plain " FROM input_0 WHERE " :: spec.predicate.elim [] (sqlPlaces lib spec.isV1 schema)) := by
      simp only [statement, hkind, List.headD_cons]
    refine .same (hstatement ▸ filterQuery_builds hallowed h) ?_ hschema
    rw [hstatement]
    simp [Query.columns, SelectItem.star]
  case h_4 hkind =>
    simp only [bind_eq_ok] at h
    obtain ⟨_, -, haggregate⟩ := h
    exact stated_aggregate (.inl hkind) haggregate
  case h_5 hkind => exact stated_pivot hkind h
  case h_6 hkind => exact stated_derive hkind hschema h
  case h_7 hkind =>
    have hstatement : statement lib spec (schema :: rest) = .select [.plain "SELECT "] [.star schema.columnNames]
        (.plain " FROM input_0 ORDER BY " :: orderPlaces (spec.sort.map .key)) := by
      simp only [statement, hkind, List.headD_cons]
    refine .same (hstatement ▸ sortQuery_builds hallowed h) ?_ hschema
    rw [hstatement]
    simp [Query.columns, SelectItem.star]
  case h_8 hkind =>
    have hstatement : statement lib spec (schema :: rest) = .select [.plain "SELECT "] [.star schema.columnNames]
        [.plain " FROM input_0 LIMIT ", .literal (limitParameter spec.limit)] := by
      simp only [statement, hkind, List.headD_cons]
    refine .same (hstatement ▸ limitQuery_builds h) ?_ hschema
    rw [hstatement]
    simp [Query.columns, SelectItem.star]
  case h_9 hkind => exact stated_join hkind hapart h
  case h_10 => cases h

end

/-! ## What `_build_query` returns -/

/-- A query was built by the operator's own builder, of inputs whose columns are apart. -/
theorem buildQuery_ok (h : buildQuery lib spec inputs = .ok built) :
    ∃ schema rest, inputs = schema :: rest ∧
      (∀ s ∈ inputs, (s.columnNames.map normalizeIdentifier).Nodup) ∧
      (buildExtensionQuery lib schema.columnNames schema spec inputs = .ok (some built) ∧ spec.isV1 = true ∨
        buildCommonQuery lib schema.columnNames schema spec inputs = .ok built) := by
  simp only [buildQuery, bind_eq_ok, forM_eq_ok, rejectNormalizedCollisions_iff] at h
  obtain ⟨_, hapart, h⟩ := h
  cases inputs with
  | nil => cases h
  | cons schema rest =>
    refine ⟨schema, rest, rfl, hapart, ?_⟩
    by_cases hversion : spec.isV1 = true
    · simp only [hversion, if_true, bind_eq_ok] at h
      obtain ⟨_, -, extended, hextended, h⟩ := h
      cases extended with
      | none => exact .inr h
      | some query =>
        obtain rfl := Except.ok.inj h
        exact .inl ⟨hextended, hversion⟩
    · simp only [hversion, Bool.false_eq_true, if_false, pure_bind, bind_eq_ok] at h
      obtain ⟨_, -, h⟩ := h
      exact .inr h

theorem buildQuery_stated (h : buildQuery lib spec inputs = .ok built) : Stated lib spec inputs built := by
  obtain ⟨schema, rest, rfl, hapart, ⟨hextension, -⟩ | hcommon⟩ := buildQuery_ok h
  · exact stated_extension (hapart schema (by simp)) hextension
  · exact stated_common hapart hcommon

/-- A v1 spec lists each of its columns once. -/
theorem unique_columns {parsers : ScalarParsers} (h : validateOperatorV1 parsers spec = .ok ()) : spec.columns.Nodup := by
  simp only [validateOperatorV1, OperatorSpec.extensionShape, bind_eq_ok] at h
  obtain ⟨_, -, _, -, _, -, _, -, _, -, _, -, _, -, _, -, h⟩ := h
  have hlists : (forM [spec.payload.partitionBy, spec.columns, spec.groupBy, spec.pivotValues] fun values : List String =>
      refuseIf (decide (values.length > 128) || values.dedup.length != values.length)
        "column/value lists must be unique and at most 128 items") = .ok () := by
    split at h <;> simp only [bind_eq_ok] at h <;> obtain ⟨_, -, _, -, _, -, _, -, h⟩ := h <;> exact h
  have hcolumns := forM_eq_ok.mp hlists spec.columns (by simp)
  simp only [refuseIf_eq_ok, Bool.or_eq_false_iff] at hcolumns
  exact dedup_length_bne.mp hcolumns.2

/-- The lexer reads the names and markers of the spec's statement. -/
theorem parameters_and_identifiers {sql : String} {parameters : List Parameter}
    (h : buildQuery lib spec inputs = .ok (sql, parameters)) :
    let places := (statement lib spec inputs).places
    lex sql = some (tokens places) ∧ parameters = literals places ∧
      (tokens places).count .marker = parameters.length ∧
      ∀ n, Token.name n ∈ tokens places → Given spec inputs n ∨ spec.kind.sourceRelation = some n := by
  intro places
  have hbuilds := (buildQuery_stated h).builds
  have hsql : sql = text places := hbuilds.sql
  have hparameters : parameters = literals places := hbuilds.parameters
  refine ⟨?_, hparameters, ?_, ?_⟩
  · rw [hsql]
    exact lex_text hbuilds.separated
  · rw [hparameters]
    exact count_marker_tokens places
  · intro n hn
    exact hbuilds.named n (name_mem_tokens.mp hn)

/-- The sales of one kind. -/
def pivotSales : OperatorSpec :=
  { kind := .pivot, pivotColumn := some "kind?", pivotValue := some "amount", pivotValues := ["?"] }

def sales : Schema := [⟨"kind?", .string, true⟩, ⟨"amount", .integer .w64 false, true⟩]

def pivotText : String :=
  "SELECT SUM(CASE WHEN " ++ quoted "kind?" ++ " = ? THEN " ++ quoted "amount" ++ " END) AS " ++ quoted "?" ++ " FROM input_0"

theorem pivotSales_read :
    let places := (statement bareLibraries pivotSales [sales]).places
    lex pivotText = some (tokens places) ∧ [Parameter.scalar (.str "?")] = literals places ∧
      (tokens places).count .marker = [Parameter.scalar (.str "?")].length ∧
      ∀ n, Token.name n ∈ tokens places → Given pivotSales [sales] n ∨ pivotSales.kind.sourceRelation = some n :=
  parameters_and_identifiers (by decide)

theorem aggregate_isV0 : (none : Option V1Payload).isNone = true → OperatorKind.aggregate.isV0 = true := fun _ => rfl

/-- `COUNT(*)` of a table. -/
def countRows : OperatorSpec := { kind := .aggregate, legacyOperator := aggregate_isV0, aggregates := [⟨"rows", .count, none⟩] }

def idColumn : Schema := [⟨"id", .string, true⟩]

def countText : String := "SELECT COUNT(*) AS " ++ quoted "rows" ++ " FROM " ++ quoted "input_0"

/-- An aggregation quotes the name of its relation, which the spec has not given. -/
theorem aggregation_quotes_its_relation :
    buildQuery bareLibraries countRows [idColumn] = .ok (countText, []) ∧
      ∃ read, lex countText = some read ∧ Token.name "input_0" ∈ read ∧ ¬ Given countRows [idColumn] "input_0" := by
  have hbuilt : buildQuery bareLibraries countRows [idColumn] = .ok (countText, []) := by decide
  obtain ⟨hsql, -, hseparated, -⟩ := (buildQuery_stated hbuilt).builds
  refine ⟨hbuilt, tokens (statement bareLibraries countRows [idColumn]).places, ?_, ?_, ?_⟩
  · simp only at hsql
    rw [hsql]
    exact lex_text hseparated
  · exact name_mem_tokens.mpr (by decide)
  · intro hgiven
    rcases hgiven with hidentifier | ⟨schema, hschema, hcolumn⟩
    · exact absurd hidentifier (by decide)
    · obtain rfl := List.mem_singleton.mp hschema
      exact absurd hcolumn (by decide)

/-- The output columns of a query are apart, so `_build_query` takes them as an input's. -/
theorem output_names_apart (hvalid : spec.isV1 = true → validateOperatorV1 lib.parsers spec = .ok ())
    {sql : String} {parameters : List Parameter} (h : buildQuery lib spec inputs = .ok (sql, parameters)) :
    let query := statement lib spec inputs
    sql = text query.places ∧ (query.columns.map normalizeIdentifier).Nodup ∧
      ∀ message, rejectNormalizedCollisions query.columns message = .ok () := by
  intro query
  have hstated := buildQuery_stated h
  have hunique : spec.kind = .distinct → spec.columns.Nodup := by
    intro hkind
    have hversion : spec.isV1 = true := by
      by_contra hlegacy
      have hv0 := spec.legacyOperator (by simpa [OperatorSpec.isV1] using hlegacy)
      rw [hkind] at hv0
      cases hv0
    exact unique_columns (hvalid hversion)
  have hapart := hstated.apart hunique
  exact ⟨hstated.builds.sql, hapart, fun _ => rejectNormalizedCollisions_iff.mpr hapart⟩

theorem distinct_isV1 : (some ({} : V1Payload)).isNone = true → OperatorKind.distinct.isV0 = true := by
  intro h
  cases h

/-- The regions and quarters of the sales, each combination once. -/
def distinctSales : OperatorSpec :=
  { kind := .distinct, columns := ["Region", "QUARTER", "region code"], v1 := some {}, legacyOperator := distinct_isV1 }

def quarterlySales : Schema :=
  [⟨"region code", .string, true⟩, ⟨"Region", .string, true⟩, ⟨"QUARTER", .string, true⟩, ⟨"amount", .integer .w64 false, true⟩]

def distinctText : String :=
  "SELECT DISTINCT " ++ quoted "Region" ++ ", " ++ quoted "QUARTER" ++ ", " ++ quoted "region code" ++ " FROM input_0"

theorem distinctSales_apart :
    let query := statement bareLibraries distinctSales [quarterlySales]
    query.columns.map normalizeIdentifier = ["region", "quarter", "region code"] ∧
      distinctText = text query.places ∧ (query.columns.map normalizeIdentifier).Nodup ∧
      ∀ message, rejectNormalizedCollisions query.columns message = .ok () := by
  have hvalid : validateOperatorV1 bareLibraries.parsers distinctSales = .ok () := by decide
  have hbuilt : buildQuery bareLibraries distinctSales [quarterlySales] = .ok (distinctText, []) := by decide
  exact ⟨by decide, output_names_apart (fun _ => hvalid) hbuilt⟩

end

end DataNexus.Runtime
