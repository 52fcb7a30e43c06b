/-
  DataNexus.Databricks.RowLimit — when an accepted live result is complete.

  The warehouse runs the fragment with every LIMIT clamped (`translate_eval`). Each
  operation keeps the relation its phase names between the warehouse's rows and the true
  ones (`perform_related`), so an accepted result is the fold whenever the last phase is
  not `wrong`. Where it is, a table of `row_limit + 2` rows, the last of them marked, shows
  the clamp: the marked row is lost, and the operations that look past the clamp are chosen
  to look for it.
-/

import DataNexus.Databricks.Query

namespace DataNexus.Databricks

open Lib Lib.SqlExpression DataNexus.Runtime

variable {ρ : Type}

/-- The operation the warehouse runs. -/
def clamped (rowLimit : Nat) (spec : OperatorSpec) : OperatorSpec :=
  { spec with limit := spec.limit.map (min · (rowLimit + 1)) }

/-- An operation that translates has a shape, and nests what its clamped self does. -/
theorem operation_eval {t : Translator} {query query' : Query} {spec : OperatorSpec}
    {parameters parameters' : List StatementParameter}
    (h : operation t query spec parameters = .ok (query', parameters')) :
    (∃ shape, shapeOf spec = some shape) ∧ ∀ {ρ : Type} (S : Semantics ρ) (table : List ρ),
      query'.eval S table = perform S (clamped t.rowLimit spec) (query.eval S table) := by
  unfold operation at h
  split at h
  · rename_i hkind
    cases h
    exact ⟨⟨.source, by simp [shapeOf, hkind]⟩, fun S table => by simp [perform, clamped, hkind]⟩
  · rename_i hkind
    simp only [bind_eq_ok, refuseIf_eq_ok, pure_eq_ok, Prod.mk.injEq] at h
    obtain ⟨columns, -, ⟨terms, parameters₁⟩, -, ⟨⟩, -, rfl, -⟩ := h
    exact ⟨⟨.project, by simp [shapeOf, hkind]⟩, fun S table => by simp [perform, clamped, hkind, Query.eval]⟩
  · rename_i hkind
    simp only [bind_eq_ok, refuseIf_eq_ok, pure_eq_ok, Prod.mk.injEq] at h
    obtain ⟨columns, -, ⟨terms, parameters₁⟩, -, ⟨⟩, -, rfl, -⟩ := h
    exact ⟨⟨.project, by simp [shapeOf, hkind]⟩, fun S table => by simp [perform, clamped, hkind, Query.eval]⟩
  · rename_i hkind
    split at h
    · cases h
    · rename_i predicate hpredicate
      simp only [bind_eq_ok, pure_eq_ok, Prod.mk.injEq] at h
      obtain ⟨⟨condition, parameters₁⟩, -, rfl, -⟩ := h
      exact ⟨⟨.filter, by simp [shapeOf, hkind]⟩,
        fun S table => by simp [perform, clamped, hkind, hpredicate, Query.eval]⟩
  · rename_i hkind
    simp only [bind_eq_ok, refuseIf_eq_ok, pure_eq_ok, Prod.mk.injEq] at h
    obtain ⟨⟨⟩, -, groupBy, -, ⟨terms, parameters₁⟩, -, rfl, -⟩ := h
    exact ⟨⟨if spec.groupBy = [] then .global else .grouped, by simp only [shapeOf, hkind]⟩,
      fun S table => by simp [perform, clamped, hkind, Query.eval]⟩
  · rename_i hkind
    simp only [bind_eq_ok, refuseIf_eq_ok, pure_eq_ok, Prod.mk.injEq] at h
    obtain ⟨⟨⟩, -, terms, -, rfl, -⟩ := h
    exact ⟨⟨.sort, by simp [shapeOf, hkind]⟩, fun S table => by simp [perform, clamped, hkind, Query.eval]⟩
  · rename_i hkind
    split at h
    · cases h
    · rename_i rows hrows
      cases h
      exact ⟨⟨.limit rows, by simp [shapeOf, hkind, hrows]⟩,
        fun S table => by simp [perform, clamped, hkind, hrows, Query.eval]⟩
  · cases h

theorem operations_eval {t : Translator} {specs : List OperatorSpec} {query query' : Query}
    {parameters parameters' : List StatementParameter}
    (h : operations t query specs parameters = .ok (query', parameters')) :
    (∃ shapes : List Shape, specs.map shapeOf = shapes.map some) ∧ ∀ {ρ : Type} (S : Semantics ρ) (table : List ρ),
      query'.eval S table = performAll S (specs.map (clamped t.rowLimit)) (query.eval S table) := by
  induction specs generalizing query parameters with
  | nil =>
    cases h
    exact ⟨⟨[], rfl⟩, fun S table => rfl⟩
  | cons spec specs ih =>
    simp only [operations, bind_eq_ok] at h
    obtain ⟨⟨query₁, parameters₁⟩, hspec, hspecs⟩ := h
    obtain ⟨⟨shape, hshape⟩, heval⟩ := operation_eval hspec
    obtain ⟨⟨shapes, hshapes⟩, hevals⟩ := ih hspecs
    refine ⟨⟨shape :: shapes, by simp [hshape, hshapes]⟩, fun S table => ?_⟩
    rw [hevals, heval]
    rfl

/-- The query that is run, from the operations that were translated. -/
theorem translate_eval {t : Translator} {fragment : SourceFragment} {connector : PhysicalSourceFragment}
    (h : translate t fragment = .ok connector) :
    (∃ shapes : List Shape, fragment.operations.map shapeOf = shapes.map some) ∧
      ∀ {ρ : Type} (S : Semantics ρ) (table : List ρ), connector.query.eval S table =
        (performAll S (fragment.operations.map (clamped t.rowLimit)) table).take (t.rowLimit + 1) := by
  simp only [translate, bind_eq_ok, pure_eq_ok] at h
  obtain ⟨objectName, -, ⟨query, parameters⟩, hquery, rfl⟩ := h
  obtain ⟨hshapes, heval⟩ := operations_eval hquery
  refine ⟨hshapes, fun S table => ?_⟩
  show (query.eval S table).take (t.rowLimit + 1) = _
  rw [heval]
  rfl

/-- An accepted result: the fold of the clamped operations, within the limit. -/
theorem live_eq_ok {t : Translator} {S : Semantics ρ} {fragment : SourceFragment} {table rows : List ρ}
    (h : live t S fragment table = .ok rows) :
    rows = (performAll S (fragment.operations.map (clamped t.rowLimit)) table).take (t.rowLimit + 1) ∧
      rows.length ≤ t.rowLimit := by
  simp only [live, bind_eq_ok, refuseIf_eq_ok, pure_eq_ok] at h
  obtain ⟨connector, hconnector, ⟨⟩, hlength, rfl⟩ := h
  exact ⟨(translate_eval hconnector).2 S table, by simpa using hlength⟩

/-! ## The phases -/

/-- The relation a phase stands for. -/
def Phase.Related (rowLimit : Nat) : Phase → List ρ → List ρ → Prop
  | .whole, rows, full => rows = full
  | .bounded, rows, full => rows = full ∧ full.length ≤ rowLimit + 1
  | .clipped, rows, full => rows = full.take (rowLimit + 1)
  | .clippedSorted, rows, full => rows = full ∨ rows.length = rowLimit + 1
  | .wrong, _, _ => True

/-- Only grouping by a key and operators that keep or drop rows: none adds any. -/
theorem length_perform_le (S : Semantics ρ) (spec : OperatorSpec) (rows : List ρ) :
    (perform S spec rows).length ≤ max 1 rows.length := by
  unfold perform
  split
  · simp
  · simp
  · exact (List.length_filter_le _ _).trans (Nat.le_max_right _ _)
  · unfold Semantics.grouped
    split
    · simp
    · let _ := S.decidableKey
      have hle := (List.dedup_sublist (rows.map (S.key spec.groupBy))).length_le
      simp only [List.length_map] at hle ⊢
      omega
  · simp
  · cases spec.limit <;> simp
  · simp

/-- The operations of a shape. -/
def Shape.Fits (spec : OperatorSpec) : Shape → Prop
  | .source => spec.kind = .source
  | .project => spec.kind = .select ∨ spec.kind = .project
  | .filter => spec.kind = .filter
  | .grouped => spec.kind = .aggregate ∧ spec.groupBy ≠ []
  | .global => spec.kind = .aggregate ∧ spec.groupBy = []
  | .sort => spec.kind = .sort
  | .limit n => spec.kind = .limit ∧ spec.limit = some n

theorem kind_of_shapeOf {spec : OperatorSpec} {shape : Shape} (h : shapeOf spec = some shape) : shape.Fits spec := by
  unfold shapeOf at h
  split at h
  · cases h
    assumption
  · cases h
    exact .inl ‹_›
  · cases h
    exact .inr ‹_›
  · cases h
    assumption
  · rename_i hkind
    by_cases hgroup : spec.groupBy = []
    · rw [if_pos hgroup] at h
      cases h
      exact ⟨hkind, hgroup⟩
    · rw [if_neg hgroup] at h
      cases h
      exact ⟨hkind, hgroup⟩
  · cases h
    assumption
  · obtain ⟨n, hn, rfl⟩ := Option.map_eq_some_iff.mp h
    exact ⟨‹_›, hn⟩
  · cases h

section Perform

variable (S : Semantics ρ) {spec : OperatorSpec} (rows : List ρ)

theorem perform_source (h : shapeOf spec = some .source) : perform S spec rows = rows := by
  simp [perform, show spec.kind = .source from kind_of_shapeOf h]

theorem perform_project (h : shapeOf spec = some .project) :
    perform S spec rows = rows.map (S.project spec.columns spec.expressions) := by
  obtain hkind | hkind : spec.kind = .select ∨ spec.kind = .project := kind_of_shapeOf h <;> simp [perform, hkind]

theorem perform_global (h : shapeOf spec = some .global) :
    perform S spec rows = [S.summarize spec.groupBy spec.aggregates rows] := by
  obtain ⟨hkind, hgroup⟩ : spec.kind = .aggregate ∧ spec.groupBy = [] := kind_of_shapeOf h
  simp [perform, hkind, Semantics.grouped, hgroup]

theorem perform_sort (h : shapeOf spec = some .sort) : perform S spec rows = rows.mergeSort (S.precedes spec.sort) := by
  simp [perform, show spec.kind = .sort from kind_of_shapeOf h]

theorem perform_limit {n : Nat} (h : shapeOf spec = some (.limit n)) : perform S spec rows = rows.take n := by
  obtain ⟨hkind, hlimit⟩ : spec.kind = .limit ∧ spec.limit = some n := kind_of_shapeOf h
  simp [perform, hkind, hlimit]

/-- Only a LIMIT is clamped. -/
theorem perform_clamped {shape : Shape} (h : shapeOf spec = some shape) (hlimit : ∀ n, shape ≠ .limit n)
    (rowLimit : Nat) : perform S (clamped rowLimit spec) rows = perform S spec rows := by
  have hkind : spec.kind ≠ .limit := by
    intro hkind
    simp only [shapeOf, hkind, Option.map_eq_some_iff] at h
    obtain ⟨n, -, rfl⟩ := h
    exact hlimit n rfl
  unfold perform
  split <;> simp_all [clamped]

theorem perform_clamped_limit {n : Nat} (h : shapeOf spec = some (.limit n)) (rowLimit : Nat) :
    perform S (clamped rowLimit spec) rows = rows.take (min n (rowLimit + 1)) := by
  obtain ⟨hkind, hlimit⟩ : spec.kind = .limit ∧ spec.limit = some n := kind_of_shapeOf h
  simp [perform, clamped, hkind, hlimit]

end Perform

theorem limit_related {rowLimit n : Nat} {phase : Phase} {rows full : List ρ}
    (hrel : phase.Related rowLimit rows full) :
    (phase.next rowLimit (.limit n)).Related rowLimit (rows.take (min n (rowLimit + 1))) (full.take n) := by
  cases phase with
  | whole =>
    obtain rfl : rows = full := hrel
    by_cases hn : n ≤ rowLimit + 1
    · simp [Phase.next, Phase.Related, hn]
    · have hmin : min n (rowLimit + 1) = rowLimit + 1 := by omega
      simp [Phase.next, Phase.Related, hn, hmin, List.take_take]
      omega
  | bounded =>
    obtain ⟨rfl, hlen⟩ : rows = full ∧ full.length ≤ rowLimit + 1 := hrel
    refine ⟨?_, by simp; omega⟩
    obtain hn | hn := Nat.le_total n (rowLimit + 1)
    · rw [Nat.min_eq_left hn]
    · rw [Nat.min_eq_right hn, List.take_of_length_le hlen, List.take_of_length_le (hlen.trans hn)]
  | clipped =>
    obtain rfl : rows = full.take (rowLimit + 1) := hrel
    by_cases hn : n ≤ rowLimit + 1
    · simp [Phase.next, Phase.Related, hn, List.take_take]
    · have hmin : min n (rowLimit + 1) = rowLimit + 1 := by omega
      simp [Phase.next, Phase.Related, hn, hmin, List.take_take]
      omega
  | clippedSorted =>
    by_cases hzero : n = 0
    · simp [Phase.next, Phase.Related, hzero]
    · by_cases hn : n ≤ rowLimit
      · simp [Phase.next, Phase.Related, hzero, hn]
      · have hmin : min n (rowLimit + 1) = rowLimit + 1 := by omega
        simp only [Phase.next, if_neg hzero, if_neg hn, hmin]
        obtain rfl | hlen : rows = full ∨ rows.length = rowLimit + 1 := hrel
        · obtain hle | hlt := Nat.le_total rows.length (rowLimit + 1)
          · exact .inl (by rw [List.take_of_length_le hle, List.take_of_length_le (by omega)])
          · exact .inr (by simp; omega)
        · exact .inr (by simp; omega)
  | wrong =>
    cases n with
    | zero => simp [Phase.next, Phase.Related]
    | succ n => trivial

/-- One operation takes related rows to rows related as the next phase says. -/
theorem perform_related {S : Semantics ρ} {spec : OperatorSpec} {shape : Shape} (h : shapeOf spec = some shape)
    {rowLimit : Nat} {phase : Phase} {rows full : List ρ} (hrel : phase.Related rowLimit rows full) :
    (phase.next rowLimit shape).Related rowLimit (perform S (clamped rowLimit spec) rows) (perform S spec full) := by
  by_cases hlimit : ∃ n, shape = .limit n
  · obtain ⟨n, rfl⟩ := hlimit
    rw [perform_clamped_limit S rows h, perform_limit S full h]
    exact limit_related hrel
  · rw [perform_clamped S rows h (fun n e => hlimit ⟨n, e⟩)]
    cases phase with
    | whole =>
      obtain rfl : rows = full := hrel
      cases shape with
      | global => exact ⟨rfl, by simp [perform_global S rows h]⟩
      | limit n => exact absurd ⟨n, rfl⟩ hlimit
      | _ => exact rfl
    | bounded =>
      obtain ⟨rfl, hlen⟩ : rows = full ∧ full.length ≤ rowLimit + 1 := hrel
      have hle := length_perform_le S spec rows
      exact ⟨rfl, by omega⟩
    | clipped =>
      obtain rfl : rows = full.take (rowLimit + 1) := hrel
      cases shape with
      | source =>
        rw [perform_source S _ h, perform_source S _ h]
        exact rfl
      | project =>
        rw [perform_project S _ h, perform_project S _ h, List.map_take]
        exact rfl
      | sort =>
        rw [perform_sort S _ h, perform_sort S _ h]
        obtain hle | hlt := Nat.le_total full.length (rowLimit + 1)
        · exact .inl (by rw [List.take_of_length_le hle])
        · exact .inr (by simp; omega)
      | limit n => exact absurd ⟨n, rfl⟩ hlimit
      | _ => trivial
    | clippedSorted =>
      have hkept : (perform S spec rows).length = rows.length →
          perform S spec rows = perform S spec full ∨ (perform S spec rows).length = rowLimit + 1 := by
        intro hlen
        obtain rfl | hfull : rows = full ∨ rows.length = rowLimit + 1 := hrel
        · exact .inl rfl
        · exact .inr (hlen.trans hfull)
      cases shape with
      | source => exact hkept (by rw [perform_source S _ h])
      | project => exact hkept (by rw [perform_project S _ h, List.length_map])
      | sort => exact hkept (by rw [perform_sort S _ h, List.length_mergeSort])
      | limit n => exact absurd ⟨n, rfl⟩ hlimit
      | _ => trivial
    | wrong =>
      cases shape with
      | limit n => exact absurd ⟨n, rfl⟩ hlimit
      | _ => trivial

theorem performAll_related {S : Semantics ρ} {specs : List OperatorSpec} {shapes : List Shape}
    (h : specs.map shapeOf = shapes.map some) {rowLimit : Nat} {phase : Phase} {rows full : List ρ}
    (hrel : phase.Related rowLimit rows full) :
    (shapes.foldl (Phase.next rowLimit) phase).Related rowLimit
      (performAll S (specs.map (clamped rowLimit)) rows) (performAll S specs full) := by
  induction specs generalizing shapes phase rows full with
  | nil =>
    cases shapes with
    | nil => exact hrel
    | cons shape shapes => cases h
  | cons spec specs ih =>
    cases shapes with
    | nil => cases h
    | cons shape shapes =>
      obtain ⟨hspec, hspecs⟩ := List.cons.inj h
      exact ih hspecs (perform_related hspec hrel)

/-- The rows the bounded query returns, when they are few enough to be accepted, are the
    true ones. -/
theorem Phase.Related.complete {rowLimit : Nat} {phase : Phase} {rows full : List ρ}
    (h : phase.Related rowLimit rows full) (hphase : phase ≠ .wrong)
    (hlen : (rows.take (rowLimit + 1)).length ≤ rowLimit) : rows.take (rowLimit + 1) = full := by
  have hshort : rows.length ≤ rowLimit := by
    rw [List.length_take] at hlen
    omega
  rw [List.take_of_length_le (by omega)]
  cases phase with
  | whole => exact h
  | bounded => exact h.1
  | clipped =>
    obtain rfl : rows = full.take (rowLimit + 1) := h
    rw [List.length_take] at hshort
    exact List.take_of_length_le (by omega)
  | clippedSorted =>
    obtain rfl | hlen : rows = full ∨ rows.length = rowLimit + 1 := h
    · rfl
    · omega
  | wrong => exact absurd rfl hphase

/-! ## A table that shows the clamp -/

/-- Rows are numbers, and the row `row_limit + 1` is marked. An operation that names the
    column `marker` looks for the mark; every other one leaves the rows as they are. -/
def marked (rowLimit : Nat) : Semantics Nat where
  project _ _ r := r
  holds predicate r := if predicate.column = some "marker" then r == rowLimit + 1 else true
  Key := Nat
  decidableKey := inferInstance
  key groupBy r := if groupBy = ["marker"] then 0 else r
  summarize _ aggregates rows :=
    if aggregates.map (·.name) = ["marker"] then if rowLimit + 1 ∈ rows then rowLimit + 1 else 0 else rows.headD 0
  precedes sort a b := if sort.map (·.column) = ["marker"] then a == rowLimit + 1 || b != rowLimit + 1 else true
  precedes_total sort a b := by
    by_cases h : sort.map (·.column) = ["marker"] <;> simp [h]
    omega
  precedes_trans sort a b c := by
    by_cases h : sort.map (·.column) = ["marker"] <;> simp [h]
    omega

/-- Once a clamp has cut the rows, operations look for the mark; before, and after one has,
    they do not. -/
def Phase.looksFor : Phase → String
  | .clipped | .clippedSorted => "marker"
  | _ => "neutral"

/-- An operation of the shape. -/
def provoke (phase : Phase) : Shape → OperatorSpec
  | .source => { kind := .source }
  | .project => { kind := .project, columns := ["neutral"] }
  | .filter => { kind := .filter, predicate := some (.mk .column .boolean (some phase.looksFor) .null []) }
  | .grouped => { kind := .aggregate, groupBy := [phase.looksFor], aggregates := [{ name := phase.looksFor, function := .count }] }
  | .global => { kind := .aggregate, aggregates := [{ name := phase.looksFor, function := .count }] }
  | .sort => { kind := .sort, sort := [{ column := phase.looksFor }] }
  | .limit rows => { kind := .limit, limit := some rows }

def provokeAll (rowLimit : Nat) : Phase → List Shape → List OperatorSpec
  | _, [] => []
  | phase, shape :: shapes => provoke phase shape :: provokeAll rowLimit (phase.next rowLimit shape) shapes

theorem shapeOf_provoke (phase : Phase) (shape : Shape) : shapeOf (provoke phase shape) = some shape := by
  cases shape <;> simp [provoke, shapeOf]

theorem shapeOf_provokeAll (rowLimit : Nat) (phase : Phase) (shapes : List Shape) :
    (provokeAll rowLimit phase shapes).map shapeOf = shapes.map some := by
  induction shapes generalizing phase with
  | nil => rfl
  | cons shape shapes ih => simp [provokeAll, shapeOf_provoke, ih]

theorem operation_provoke (t : Translator) (query : Query) (phase : Phase) (shape : Shape)
    (parameters : List StatementParameter) :
    ∃ query', operation t query (provoke phase shape) parameters = .ok (query', parameters) := by
  cases shape <;> cases phase <;> exact ⟨_, rfl⟩

theorem operations_provokeAll (t : Translator) (query : Query) (phase : Phase) (shapes : List Shape)
    (parameters : List StatementParameter) :
    ∃ query', operations t query (provokeAll t.rowLimit phase shapes) parameters = .ok (query', parameters) := by
  induction shapes generalizing query phase with
  | nil => exact ⟨query, rfl⟩
  | cons shape shapes ih =>
    obtain ⟨query₁, hspec⟩ := operation_provoke t query phase shape parameters
    obtain ⟨query', hspecs⟩ := ih query₁ (phase.next t.rowLimit shape)
    refine ⟨query', ?_⟩
    rw [provokeAll, operations, hspec]
    exact hspecs

/-- The fragment that provokes a sequence of shapes. -/
def provoking (rowLimit : Nat) (shapes : List Shape) : SourceFragment :=
  { source := ⟨"sales", "azure_databricks_statement_execution", "sales"⟩, operations := provokeAll rowLimit .whole shapes }

theorem live_provoking (t : Translator) (shapes : List Shape) (table : List Nat)
    (h : (performAll (marked t.rowLimit) ((provokeAll t.rowLimit .whole shapes).map (clamped t.rowLimit)) table).length ≤
      t.rowLimit) :
    live t (marked t.rowLimit) (provoking t.rowLimit shapes) table =
      .ok (performAll (marked t.rowLimit) ((provokeAll t.rowLimit .whole shapes).map (clamped t.rowLimit)) table) := by
  have hsales : identifier "sales" = .ok "sales" := rfl
  obtain ⟨query, hquery⟩ := operations_provokeAll t
    (.table (quote t.catalog ++ "." ++ quote t.schema ++ "." ++ quote "sales")) .whole shapes []
  have heval : (Query.limited "bounded_result" (t.rowLimit + 1) query).eval (marked t.rowLimit) table =
      performAll (marked t.rowLimit) ((provokeAll t.rowLimit .whole shapes).map (clamped t.rowLimit)) table := by
    rw [Query.eval, (operations_eval hquery).2]
    exact List.take_of_length_le (by simpa [Query.eval] using h.trans (Nat.le_succ _))
  simp only [live, translate, provoking, hsales, bind_eq_ok, refuseIf_eq_ok, pure_eq_ok]
  refine ⟨_, ⟨_, rfl, _, hquery, rfl⟩, (), ?_, heval⟩
  rw [heval]
  simpa using h

/-- What has become of the mark. -/
def Phase.Marked (rowLimit : Nat) : Phase → List Nat → List Nat → Prop
  | .whole, rows, full => rows = full ∧ full = List.range (rowLimit + 2)
  | .bounded, _, _ => True
  | .clipped, rows, full => rows = List.range (rowLimit + 1) ∧ full = List.range (rowLimit + 2)
  | .clippedSorted, rows, full =>
    rows.length = rowLimit + 1 ∧ rowLimit + 1 ∉ rows ∧ full.head? = some (rowLimit + 1) ∧ rows.Nodup ∧ full.Nodup
  | .wrong, rows, full =>
    rows.length ≤ rowLimit ∧ rowLimit + 1 ∉ rows ∧ full.head? = some (rowLimit + 1) ∧ rows.Nodup ∧ full.Nodup

section Provoked

variable {rowLimit : Nat} {phase : Phase} {rows full : List Nat}

theorem headD_filter {k : Nat} (hk : k ∈ rows) : (rows.filter fun r => r = k).headD 0 = k := by
  cases hfilter : rows.filter fun r => r = k with
  | nil => exact absurd (List.filter_eq_nil_iff.mp hfilter k hk) (by simp)
  | cons r rest =>
    have hmem : r ∈ rows.filter fun r => r = k := by simp [hfilter]
    simpa using (List.mem_filter.mp hmem).2

/-- Grouped by itself, every row is a group. -/
theorem grouped_neutral (hn : rows.Nodup) :
    (marked rowLimit).grouped ["neutral"] [{ name := "neutral", function := .count }] rows = rows := by
  have hsummaries : (rows.dedup.map fun k => (rows.filter fun r => r = k).headD 0) = rows.dedup.map id :=
    List.map_congr_left fun k hk => headD_filter (List.mem_dedup.mp hk)
  calc (marked rowLimit).grouped ["neutral"] [{ name := "neutral", function := .count }] rows
      = rows.dedup.map fun k => (rows.filter fun r => r = k).headD 0 := by
        simp [Semantics.grouped, marked]
        rfl
    _ = rows := by rw [hsummaries, List.map_id, hn.dedup]

/-- Grouped by one key, the rows are one group. -/
theorem grouped_marker (hrows : rows ≠ []) :
    (marked rowLimit).grouped ["marker"] [{ name := "marker", function := .count }] rows =
      [if rowLimit + 1 ∈ rows then rowLimit + 1 else 0] := by
  have hkeys : (rows.map fun _ => 0).dedup = [0] := by
    rw [List.map_const', List.replicate_dedup (by simpa using hrows)]
  calc (marked rowLimit).grouped ["marker"] [{ name := "marker", function := .count }] rows
      = (rows.map fun _ => 0).dedup.map fun k =>
          if rowLimit + 1 ∈ rows.filter (fun _ => 0 = k) then rowLimit + 1 else 0 := rfl
    _ = [if rowLimit + 1 ∈ rows then rowLimit + 1 else 0] := by simp only [hkeys]; simp

theorem perform_neutral (hphase : phase.looksFor = "neutral") (hn : rows.Nodup) {shape : Shape}
    (hglobal : shape ≠ .global) (hlimit : ∀ n, shape ≠ .limit n) :
    perform (marked rowLimit) (provoke phase shape) rows = rows := by
  cases shape with
  | source => rfl
  | project => simp [perform, provoke, marked]
  | filter => simp [perform, provoke, marked, hphase, TypedExpression.column]
  | grouped =>
    show (marked rowLimit).grouped [phase.looksFor] [{ name := phase.looksFor, function := .count }] rows = rows
    rw [hphase]
    exact grouped_neutral hn
  | global => exact absurd rfl hglobal
  | sort =>
    show rows.mergeSort ((marked rowLimit).precedes [{ column := phase.looksFor }]) = rows
    rw [hphase]
    exact List.mergeSort_of_pairwise (List.pairwise_of_forall fun a b => by simp [marked])
  | limit n => exact absurd rfl (hlimit n)

theorem perform_global_neutral (hphase : phase.looksFor = "neutral") :
    perform (marked rowLimit) (provoke phase .global) rows = [rows.headD 0] := by
  show (marked rowLimit).grouped [] [{ name := phase.looksFor, function := .count }] rows = _
  rw [hphase]
  rfl

/-- An aggregate that looks for the mark tells whether it is there. -/
theorem perform_aggregate_marker (hphase : phase.looksFor = "marker") (hrows : rows ≠ []) {shape : Shape}
    (hshape : shape = .grouped ∨ shape = .global) :
    perform (marked rowLimit) (provoke phase shape) rows = [if rowLimit + 1 ∈ rows then rowLimit + 1 else 0] := by
  obtain rfl | rfl := hshape
  · show (marked rowLimit).grouped [phase.looksFor] [{ name := phase.looksFor, function := .count }] rows = _
    rw [hphase]
    exact grouped_marker hrows
  · show (marked rowLimit).grouped [] [{ name := phase.looksFor, function := .count }] rows = _
    rw [hphase]
    rfl

theorem perform_filter_marker (hphase : phase.looksFor = "marker") :
    perform (marked rowLimit) (provoke phase .filter) rows = rows.filter (· == rowLimit + 1) := by
  show (rows.filter fun r => if some phase.looksFor = some "marker" then r == rowLimit + 1 else true) = _
  rw [hphase]
  rfl

/-- An order that looks for the mark puts it first. -/
theorem perform_sort_marker (hphase : phase.looksFor = "marker") (hmark : rowLimit + 1 ∈ rows) :
    (perform (marked rowLimit) (provoke phase .sort) rows).head? = some (rowLimit + 1) := by
  have hperm : (perform (marked rowLimit) (provoke phase .sort) rows).Perm rows := List.mergeSort_perm _ _
  have hsorted : (perform (marked rowLimit) (provoke phase .sort) rows).Pairwise
      fun a b => a = rowLimit + 1 ∨ b ≠ rowLimit + 1 := by
    have := List.pairwise_mergeSort ((marked rowLimit).precedes_trans [{ column := phase.looksFor }])
      ((marked rowLimit).precedes_total _) rows
    refine this.imp fun {a b} hab => ?_
    rw [hphase] at hab
    simpa [marked] using hab
  cases hout : perform (marked rowLimit) (provoke phase .sort) rows with
  | nil =>
    rw [hout] at hperm
    rw [hperm.symm.eq_nil] at hmark
    cases hmark
  | cons r rest =>
    rw [hout] at hperm hsorted
    obtain rfl | hrest := List.mem_cons.mp (hperm.mem_iff.mpr hmark)
    · rfl
    · obtain rfl | hne := (List.pairwise_cons.mp hsorted).1 _ hrest
      · rfl
      · exact absurd rfl hne

theorem limit_marked {n : Nat} (h : phase.Marked rowLimit rows full) :
    (phase.next rowLimit (.limit n)).Marked rowLimit (rows.take (min n (rowLimit + 1))) (full.take n) := by
  cases phase with
  | bounded => trivial
  | whole =>
    obtain ⟨rfl, hfull⟩ := h
    by_cases hn : n ≤ rowLimit + 1
    · simp [Phase.next, hn, Phase.Marked]
    · have hmin : min n (rowLimit + 1) = rowLimit + 1 := by omega
      simp only [Phase.next, hn, if_false, hmin]
      refine ⟨?_, ?_⟩
      · rw [hfull, List.take_range]
        congr 1
        omega
      · rw [hfull]
        exact List.take_of_length_le (by simp; omega)
  | clipped =>
    obtain ⟨rfl, hfull⟩ := h
    by_cases hn : n ≤ rowLimit + 1
    · simp [Phase.next, hn, Phase.Marked]
    · have hmin : min n (rowLimit + 1) = rowLimit + 1 := by omega
      simp only [Phase.next, hn, if_false, hmin]
      refine ⟨List.take_of_length_le (by simp), ?_⟩
      rw [hfull]
      exact List.take_of_length_le (by simp; omega)
  | clippedSorted =>
    obtain ⟨hlen, hmark, hhead, hnr, hnf⟩ := h
    by_cases hzero : n = 0
    · simp [Phase.next, hzero, Phase.Marked]
    · have hhead' : (full.take n).head? = some (rowLimit + 1) := by
        rw [List.head?_take, if_neg hzero, hhead]
      by_cases hn : n ≤ rowLimit
      · simp only [Phase.next, hzero, if_false, hn, if_true]
        exact ⟨by simp; omega, fun hmem => hmark (List.mem_of_mem_take hmem), hhead', hnr.take, hnf.take⟩
      · have hmin : min n (rowLimit + 1) = rowLimit + 1 := by omega
        simp only [Phase.next, hzero, if_false, hn, hmin]
        exact ⟨by simp; omega, fun hmem => hmark (List.mem_of_mem_take hmem), hhead', hnr.take, hnf.take⟩
  | wrong =>
    obtain ⟨hlen, hmark, hhead, hnr, hnf⟩ := h
    cases n with
    | zero => trivial
    | succ n =>
      have hhead' : (full.take (n + 1)).head? = some (rowLimit + 1) := by
        rw [List.head?_take, if_neg (by omega), hhead]
      exact ⟨by simp; omega, fun hmem => hmark (List.mem_of_mem_take hmem), hhead', hnr.take, hnf.take⟩

/-- The operations look for the mark in rows of which one list has it and the other not. -/
theorem look_marked (hphase : phase.looksFor = "marker") (hlimit : 1 ≤ rowLimit) (hrows : rows ≠ [])
    (hmark : rowLimit + 1 ∉ rows) (hfull : rowLimit + 1 ∈ full) (hnf : full.Nodup) {shape : Shape}
    (hshape : shape = .filter ∨ shape = .grouped ∨ shape = .global) :
    Phase.wrong.Marked rowLimit (perform (marked rowLimit) (provoke phase shape) rows)
      (perform (marked rowLimit) (provoke phase shape) full) := by
  obtain rfl | haggregate := hshape
  · rw [perform_filter_marker hphase, perform_filter_marker hphase]
    have hnone : rows.filter (· == rowLimit + 1) = [] := by
      refine List.filter_eq_nil_iff.mpr fun r hr => ?_
      have : r ≠ rowLimit + 1 := fun e => hmark (e ▸ hr)
      simpa using this
    have hone : (full.filter (· == rowLimit + 1)).head? = some (rowLimit + 1) := by
      have hcount : List.count (rowLimit + 1) full = 1 := List.count_eq_one_of_mem hnf hfull
      rw [List.filter_beq, hcount]
      rfl
    rw [hnone]
    exact ⟨by simp, by simp, hone, List.nodup_nil, hnf.filter _⟩
  · have hfullne : full ≠ [] := List.ne_nil_of_mem hfull
    rw [perform_aggregate_marker hphase hrows haggregate, perform_aggregate_marker hphase hfullne haggregate,
      if_neg hmark, if_pos hfull]
    exact ⟨by simpa using hlimit, by simp, rfl, List.nodup_singleton _, List.nodup_singleton _⟩

/-- Before a limit both lists are one; after a global aggregate there is nothing to say. -/
theorem whole_marked (h : Phase.whole.Marked rowLimit rows full) {shape : Shape}
    (hlim : ∀ n, shape ≠ .limit n) :
    (Phase.whole.next rowLimit shape).Marked rowLimit
      (perform (marked rowLimit) (provoke Phase.whole shape) rows) (perform (marked rowLimit) (provoke Phase.whole shape) full) := by
  obtain ⟨rfl, hfull⟩ := h
  by_cases hglobal : shape = .global
  · subst hglobal
    trivial
  · rw [perform_neutral rfl (hfull ▸ List.nodup_range) hglobal hlim]
    cases shape with
    | global => exact absurd rfl hglobal
    | limit n => exact absurd rfl (hlim n)
    | _ => exact ⟨rfl, hfull⟩

/-- A clamp has cut the mark off: an operation on rows looks for it, and a sort puts it first. -/
theorem clipped_marked (hlimit : 1 ≤ rowLimit) (h : Phase.clipped.Marked rowLimit rows full) {shape : Shape}
    (hlim : ∀ n, shape ≠ .limit n) :
    (Phase.clipped.next rowLimit shape).Marked rowLimit
      (perform (marked rowLimit) (provoke Phase.clipped shape) rows) (perform (marked rowLimit) (provoke Phase.clipped shape) full) := by
  have hof := shapeOf_provoke Phase.clipped shape
  obtain ⟨rfl, rfl⟩ := h
  have hlook : shape = .filter ∨ shape = .grouped ∨ shape = .global → _ :=
    @look_marked rowLimit .clipped (List.range (rowLimit + 1)) (List.range (rowLimit + 2)) rfl hlimit
      (by simp) (by simp) (by simp) List.nodup_range _
  cases shape with
  | source => exact ⟨perform_source _ _ hof, perform_source _ _ hof⟩
  | project =>
    rw [perform_project _ _ hof, perform_project _ _ hof]
    exact ⟨List.map_id _, List.map_id _⟩
  | filter => exact hlook (.inl rfl)
  | grouped => exact hlook (.inr (.inl rfl))
  | global => exact hlook (.inr (.inr rfl))
  | sort =>
    refine ⟨?_, ?_, perform_sort_marker rfl (by simp), ?_, ?_⟩
    · rw [perform_sort _ _ hof, List.length_mergeSort, List.length_range]
    · rw [perform_sort _ _ hof, List.mem_mergeSort]
      simp
    · rw [perform_sort _ _ hof]
      exact (List.mergeSort_perm _ _).nodup_iff.mpr List.nodup_range
    · rw [perform_sort _ _ hof]
      exact (List.mergeSort_perm _ _).nodup_iff.mpr List.nodup_range
  | limit n => exact absurd rfl (hlim n)

/-- A sort has put the mark first in the rows that still have it. -/
theorem clippedSorted_marked (hlimit : 1 ≤ rowLimit) (h : Phase.clippedSorted.Marked rowLimit rows full) {shape : Shape}
    (hlim : ∀ n, shape ≠ .limit n) :
    (Phase.clippedSorted.next rowLimit shape).Marked rowLimit
      (perform (marked rowLimit) (provoke Phase.clippedSorted shape) rows) (perform (marked rowLimit) (provoke Phase.clippedSorted shape) full) := by
  have hof := shapeOf_provoke Phase.clippedSorted shape
  obtain ⟨hlen, hmark, hhead, hnr, hnf⟩ := h
  have hrows : rows ≠ [] := by
    intro e
    simp [e] at hlen
  have hlook : shape = .filter ∨ shape = .grouped ∨ shape = .global → _ :=
    @look_marked rowLimit .clippedSorted rows full rfl hlimit hrows hmark (List.mem_of_head? hhead) hnf _
  cases shape with
  | source =>
    rw [perform_source _ _ hof, perform_source _ _ hof]
    exact ⟨hlen, hmark, hhead, hnr, hnf⟩
  | project =>
    rw [perform_project _ _ hof, perform_project _ _ hof]
    show Phase.clippedSorted.Marked rowLimit (rows.map id) (full.map id)
    rw [List.map_id, List.map_id]
    exact ⟨hlen, hmark, hhead, hnr, hnf⟩
  | filter => exact hlook (.inl rfl)
  | grouped => exact hlook (.inr (.inl rfl))
  | global => exact hlook (.inr (.inr rfl))
  | sort =>
    refine ⟨?_, ?_, perform_sort_marker rfl (List.mem_of_head? hhead), ?_, ?_⟩
    · rw [perform_sort _ _ hof, List.length_mergeSort, hlen]
    · rw [perform_sort _ _ hof, List.mem_mergeSort]
      exact hmark
    · rw [perform_sort _ _ hof]
      exact (List.mergeSort_perm _ _).nodup_iff.mpr hnr
    · rw [perform_sort _ _ hof]
      exact (List.mergeSort_perm _ _).nodup_iff.mpr hnf
  | limit n => exact absurd rfl (hlim n)

/-- Rows that differ go on differing: no operation looks for anything any more. -/
theorem wrong_marked (hlimit : 1 ≤ rowLimit) (h : Phase.wrong.Marked rowLimit rows full) {shape : Shape}
    (hlim : ∀ n, shape ≠ .limit n) :
    (Phase.wrong.next rowLimit shape).Marked rowLimit
      (perform (marked rowLimit) (provoke Phase.wrong shape) rows) (perform (marked rowLimit) (provoke Phase.wrong shape) full) := by
  obtain ⟨hlen, hmark, hhead, hnr, hnf⟩ := h
  by_cases hglobal : shape = .global
  · subst hglobal
    rw [perform_global_neutral rfl, perform_global_neutral rfl]
    have hfirst : full.headD 0 = rowLimit + 1 := by
      rw [List.headD_eq_head?_getD, hhead]
      rfl
    have hother : rows.headD 0 ≠ rowLimit + 1 := by
      cases rows with
      | nil => simp
      | cons r rest => exact fun e => hmark (by simp [← e])
    rw [hfirst]
    exact ⟨by simpa using hlimit, by simpa using hother.symm, rfl, List.nodup_singleton _, List.nodup_singleton _⟩
  · rw [perform_neutral rfl hnr hglobal hlim, perform_neutral rfl hnf hglobal hlim]
    cases shape with
    | global => exact absurd rfl hglobal
    | limit n => exact absurd rfl (hlim n)
    | _ => exact ⟨hlen, hmark, hhead, hnr, hnf⟩

/-- One operation keeps what the phase says of the mark. -/
theorem perform_marked (hlimit : 1 ≤ rowLimit) (h : phase.Marked rowLimit rows full) (shape : Shape) :
    (phase.next rowLimit shape).Marked rowLimit
      (perform (marked rowLimit) (clamped rowLimit (provoke phase shape)) rows)
      (perform (marked rowLimit) (provoke phase shape) full) := by
  have hof := shapeOf_provoke phase shape
  by_cases hlim : ∃ n, shape = .limit n
  · obtain ⟨n, rfl⟩ := hlim
    rw [perform_clamped_limit _ _ hof, perform_limit _ _ hof]
    exact limit_marked h
  · have hlim : ∀ n, shape ≠ .limit n := fun n e => hlim ⟨n, e⟩
    rw [perform_clamped _ _ hof hlim]
    cases phase with
    | bounded => trivial
    | whole => exact whole_marked h hlim
    | clipped => exact clipped_marked hlimit h hlim
    | clippedSorted => exact clippedSorted_marked hlimit h hlim
    | wrong => exact wrong_marked hlimit h hlim

theorem performAll_marked (hlimit : 1 ≤ rowLimit) (shapes : List Shape) (h : phase.Marked rowLimit rows full) :
    (shapes.foldl (Phase.next rowLimit) phase).Marked rowLimit
      (performAll (marked rowLimit) ((provokeAll rowLimit phase shapes).map (clamped rowLimit)) rows)
      (performAll (marked rowLimit) (provokeAll rowLimit phase shapes) full) := by
  induction shapes generalizing phase rows full with
  | nil => exact h
  | cons shape shapes ih => exact ih (perform_marked hlimit h shape)

end Provoked

/-- Every fragment that translates is a sequence of shapes. For such a sequence every
    accepted live result of every fragment, under every meaning of the operators and on
    every table, is the fold of its operations over the full table, exactly when no
    operation that looks past a clamp follows it. -/
theorem complete_iff_clampsUnseen (t : Translator) :
    (∀ (fragment : SourceFragment) (connector : PhysicalSourceFragment), translate t fragment = .ok connector →
      ∃ shapes : List Shape, fragment.operations.map shapeOf = shapes.map some) ∧
    ∀ shapes : List Shape,
      (∀ fragment : SourceFragment, fragment.operations.map shapeOf = shapes.map some →
        ∀ (ρ : Type) (S : Semantics ρ) (table rows : List ρ), live t S fragment table = .ok rows →
          rows = performAll S fragment.operations table) ↔
        clampsUnseen t.rowLimit shapes = true := by
  refine ⟨fun fragment connector h => (translate_eval h).1, fun shapes => ⟨?_, ?_⟩⟩
  · intro h
    by_contra hseen
    have hwrong : shapes.foldl (Phase.next t.rowLimit) .whole = .wrong := by
      simpa [clampsUnseen] using hseen
    have hwhole : Phase.whole.Marked t.rowLimit (List.range (t.rowLimit + 2)) (List.range (t.rowLimit + 2)) := ⟨rfl, rfl⟩
    have hmarked := performAll_marked t.bounded.1 shapes hwhole
    rw [hwrong] at hmarked
    obtain ⟨hlen, hmark, hhead, -⟩ := hmarked
    have heq := h (provoking t.rowLimit shapes) (shapeOf_provokeAll t.rowLimit .whole shapes) Nat (marked t.rowLimit)
      (List.range (t.rowLimit + 2)) _ (live_provoking t shapes _ hlen)
    rw [heq] at hmark
    exact hmark (List.mem_of_head? hhead)
  · intro h fragment hshapes ρ S table rows hlive
    obtain ⟨rfl, hlen⟩ := live_eq_ok hlive
    have hwhole : Phase.whole.Related t.rowLimit table table := rfl
    have hrel := performAll_related (S := S) hshapes hwhole
    exact hrel.complete (by simpa [clampsUnseen] using h) hlen

def twoRows : Translator where
  catalog := "main"
  schema := "retail"
  rowLimit := 2
  identifiers := by decide
  bounded := by decide

/-- The first four rows, of them the marked ones. -/
def markedOfFour : SourceFragment :=
  { source := ⟨"sales", "azure_databricks_statement_execution", "sales"⟩
    operations := [{ kind := .limit, limit := some 4 },
      { kind := .filter, predicate := some (.mk .column .boolean (some "marker") .null []) }] }

/-- Of four rows the last is marked: the live result is accepted and empty. -/
theorem live_not_always_complete :
    ¬ ∀ (t : Translator) (fragment : SourceFragment) (ρ : Type) (S : Semantics ρ) (table rows : List ρ),
      live t S fragment table = .ok rows → rows = performAll S fragment.operations table := by
  intro h
  have hlive : live twoRows (marked 2) markedOfFour [0, 1, 2, 3] = .ok [] := by
    rfl
  have hfold : performAll (marked 2) markedOfFour.operations [0, 1, 2, 3] = [3] := by
    rfl
  have := h twoRows markedOfFour Nat (marked 2) [0, 1, 2, 3] [] hlive
  rw [hfold] at this
  cases this

end DataNexus.Databricks
