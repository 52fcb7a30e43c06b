/-
  DataNexus.Semantic.Enforcement — an accepted graph reads a constrained entity only through
  its constraint, as long as it reads the entity once.

  `Watch` is one resolved constraint: a field, a test of its values, and when a flow is
  marked as enforcing it. `Agrees` relates a node's flow to its tables on two databases that
  differ only in rows of the entity that fail the test: on a marked flow the tables are
  equal, and on any flow the rows that pass the test at a tracked column are. One lemma
  per operator, then the induction over the nodes (`agrees_run`).

  The tables below a join may differ on both sides only if the entity is read on both, so
  the invariant needs one read of it (`SQG.reads`, counted over the paths to the output).
  With two reads one of them can go unfiltered: `selfJoin_leaks`.
-/

import DataNexus.Semantic.Algebra
import DataNexus.Semantic.Acceptance

namespace DataNexus.Semantic

open Lib Relational

/-! ## Reads -/

/-- The ways from a node back to a SELECT of the entity. -/
def readStep (entityId : String) (counts : List (String × Nat)) (node : SQGNode) : List (String × Nat) :=
  (node.id,
    match node.parameters with
    | .select selected _ => if selected = entityId then 1 else 0
    | _ => (node.dependencies.map fun d => (counts.lookup d).getD 0).sum) :: counts

def readsOf (entityId : String) (nodes : List SQGNode) : List (String × Nat) :=
  nodes.foldl (readStep entityId) []

def SQG.reads (sqg : SQG) (entityId : String) : Nat :=
  ((readsOf entityId sqg.nodes).lookup sqg.outputNodeId).getD 0

/-- The rows of one entity that fail the test left out. -/
def narrow {V : Type} (data : Data V) (entityId fieldId : String) (test : V → Bool) : Data V := fun e =>
  if e = entityId then passing test fieldId (data e) else data e

namespace SQGValidator

variable {V : Type} {v : SQGValidator} {alg : Algebra V}

/-- One resolved constraint. -/
structure Watch (v : SQGValidator) (alg : Algebra V) where
  fieldId : String
  entityId : String
  test : V → Bool
  domain : Column → Option String
  Marked : Flow → Prop
  null : test alg.null = false
  selected : ∀ e name c, Selected v e name c → domain c.2 = some fieldId → name = fieldId ∧ e = entityId
  unmarked : ∀ flow : Flow, flow.memberConstraints = [] → flow.timeConstraints = [] → ¬ Marked flow
  filtered : ∀ predicate source column, source.column? predicate.column = some column →
    PredicateValid v predicate column → Marked (v.filteredFlow predicate source) → Marked source ∨
      (domain column = some fieldId ∧ column.constraintEligible = true ∧
        ∀ x, alg.keeps v.parseIso predicate x = true → test x = true)
  same : ∀ source flow, SameConstraints source flow → Marked flow → Marked source
  joined : ∀ joinType (left right flow : Flow),
    flow.memberConstraints = left.memberConstraints ++ right.memberConstraints.map (joinedMember joinType) →
    flow.timeConstraints = left.timeConstraints ++ right.timeConstraints.map (joinedTime joinType) →
    Marked flow → Marked left ∨ (Marked right ∧ joinType = .inner)

namespace Watch

variable (w : Watch v alg)

def Tracked (column : Column) : Prop := w.domain column = some w.fieldId ∧ column.constraintEligible = true

/-- The tables of a flow on the two databases, where the entity was read `reads` times. -/
structure Agrees (reads : Nat) (flow : Flow) (a b : Table V) : Prop where
  names : ∀ n, n ∈ a.columns ↔ n ∈ flow.names
  columns : b.columns = a.columns
  unread : reads = 0 → a = b ∧ ¬ w.Marked flow ∧ ∀ c ∈ flow.columns, ¬ w.Tracked c.2
  marked : w.Marked flow → a = b
  tracked : ∀ c ∈ flow.columns, w.Tracked c.2 → passing w.test c.1 a.rows = passing w.test c.1 b.rows

variable {w}

/-- An operator on one input whose tracked columns come from tracked columns of it. -/
theorem Agrees.unary {reads : Nat} {source flow : Flow} {a b : Table V} (h : w.Agrees reads source a b)
    (op : Table V → Table V) (hnames : ∀ n, n ∈ (op a).columns ↔ n ∈ flow.names)
    (hcolumns : (op b).columns = (op a).columns) (hsame : SameConstraints source flow)
    (htracked : ∀ c ∈ flow.columns, w.Tracked c.2 → ∃ d ∈ source.columns, w.Tracked d.2 ∧
      (passing w.test d.1 a.rows = passing w.test d.1 b.rows →
        passing w.test c.1 (op a).rows = passing w.test c.1 (op b).rows)) :
    w.Agrees reads flow (op a) (op b) where
  names := hnames
  columns := hcolumns
  unread h0 := by
    obtain ⟨hab, hm, ht⟩ := h.unread h0
    refine ⟨congrArg op hab, fun hf => hm (w.same _ _ hsame hf), fun c hc hct => ?_⟩
    obtain ⟨d, hd, hdt, -⟩ := htracked c hc hct
    exact ht d hd hdt
  marked hf := congrArg op (h.marked (w.same _ _ hsame hf))
  tracked c hc hct := by
    obtain ⟨d, hd, hdt, himp⟩ := htracked c hc hct
    exact himp (h.tracked d hd hdt)

/-! ## One operator -/

theorem names_of_forall₂ {α : Type} {R : α → String × Column → Prop} {f : α → String} {xs : List α}
    {columns : List (String × Column)} (h : List.Forall₂ R xs columns) (hR : ∀ x c, R x c → c.1 = f x) :
    columns.map (·.1) = xs.map f := by
  induction h with
  | nil => rfl
  | cons hxc _ ih => rw [List.map_cons, List.map_cons, ih, hR _ _ hxc]

theorem agrees_select {data : Data V} {entityId : String} {columns : List String} {flow : Flow}
    (hs : List.Forall₂ (Selected v entityId) columns flow.columns) (hm : flow.memberConstraints = [])
    (ht : flow.timeConstraints = []) :
    w.Agrees (if entityId = w.entityId then 1 else 0) flow (alg.select data entityId columns)
      (alg.select (narrow data w.entityId w.fieldId w.test) entityId columns) where
  names n := by
    show n ∈ columns ↔ n ∈ flow.columns.map (·.1)
    rw [names_of_forall₂ (f := id) hs fun _ _ h => h.1, List.map_id]
  columns := rfl
  unread h0 := by
    have hne : entityId ≠ w.entityId := by
      intro he
      simp [he] at h0
    refine ⟨?_, w.unmarked flow hm ht, fun c hc hct => ?_⟩
    · simp [Algebra.select, narrow, hne]
    · obtain ⟨name, -, hsel⟩ := mem_of_forall₂ hs hc
      exact hne (w.selected _ _ _ hsel hct.1).2
  marked hf := absurd hf (w.unmarked flow hm ht)
  tracked c hc hct := by
    obtain ⟨name, hn, hsel⟩ := mem_of_forall₂ hs hc
    obtain ⟨rfl, rfl⟩ := w.selected _ _ _ hsel hct.1
    rw [hsel.1]
    have hread : ∀ r : Row String V, alg.restrict columns r w.fieldId = r w.fieldId := fun r => if_pos hn
    show passing w.test w.fieldId ((data w.entityId).map (alg.restrict columns)) =
      passing w.test w.fieldId ((narrow data w.entityId w.fieldId w.test w.entityId).map (alg.restrict columns))
    rw [passing_map hread, passing_map hread, narrow, if_pos rfl]
    unfold passing
    rw [Multiset.filter_filter]
    simp

theorem agrees_filter {reads : Nat} {predicate : Predicate} {source : Flow} {column : Column} {a b : Table V}
    (hc : source.column? predicate.column = some column) (hp : PredicateValid v predicate column)
    (h : w.Agrees reads source a b) :
    w.Agrees reads (v.filteredFlow predicate source) (alg.filter v.parseIso predicate a)
      (alg.filter v.parseIso predicate b) := by
  have hcols : (v.filteredFlow predicate source).columns = source.columns := by
    simp [filteredFlow, hc]
  -- A filter whose predicate implies the test leaves only rows on which the tables agree.
  have hnew : w.Tracked column → (∀ x, alg.keeps v.parseIso predicate x = true → w.test x = true) →
      alg.filter v.parseIso predicate a = alg.filter v.parseIso predicate b := by
    intro ht himp
    have hall : ∀ t : Multiset (Row String V), passing (alg.keeps v.parseIso predicate) predicate.column t =
        passing (alg.keeps v.parseIso predicate) predicate.column (passing w.test predicate.column t) := by
      intro t
      unfold passing
      rw [Multiset.filter_filter]
      exact Multiset.filter_congr fun r _ => ⟨fun hk => ⟨hk, himp _ hk⟩, fun hk => hk.1⟩
    unfold Algebra.filter
    rw [h.columns, hall a.rows, hall b.rows, h.tracked _ (source.mem_of_column? hc) ht]
  refine ⟨?_, h.columns, fun h0 => ?_, fun hf => ?_, fun c hcm hct => ?_⟩
  · intro n
    show n ∈ a.columns ↔ n ∈ (v.filteredFlow predicate source).columns.map (·.1)
    rw [hcols]
    exact h.names n
  · obtain ⟨hab, hm, ht⟩ := h.unread h0
    refine ⟨congrArg _ hab, fun hf => ?_, fun c hcm => ht c (hcols ▸ hcm)⟩
    rcases w.filtered _ _ _ hc hp hf with hm' | ⟨hd, he, -⟩
    · exact hm hm'
    · exact ht _ (source.mem_of_column? hc) ⟨hd, he⟩
  · rcases w.filtered _ _ _ hc hp hf with hm | ⟨hd, he, himp⟩
    · exact congrArg _ (h.marked hm)
    · exact hnew ⟨hd, he⟩ himp
  · have := h.tracked c (hcols ▸ hcm) hct
    show passing w.test c.1 (passing _ _ a.rows) = passing w.test c.1 (passing _ _ b.rows)
    unfold passing at this ⊢
    rw [Multiset.filter_comm, this, Multiset.filter_comm]

theorem agrees_aggregate [DecidableEq V] {reads : Nat} {groupBy : List String} {measures : List AggregateMeasure}
    {source flow : Flow} {a b : Table V} (hk : Kept source groupBy measures (MeasuredFrom source) flow.columns)
    (hs : SameConstraints source flow) (h : w.Agrees reads source a b) :
    w.Agrees reads flow (alg.aggregated groupBy measures a) (alg.aggregated groupBy measures b) := by
  obtain ⟨⟨kept, rest, hcols, hkept, hrest⟩⟩ := hk
  refine h.unary (alg.aggregated groupBy measures) (fun n => ?_) rfl hs fun c hc hct => ?_
  · show n ∈ groupBy ++ measures.map (·.output) ↔ n ∈ flow.columns.map (·.1)
    rw [hcols, List.map_append, names_of_forall₂ (f := id) hkept fun _ _ h => h.1,
      names_of_forall₂ (f := AggregateMeasure.output) hrest fun _ _ h => h.1, List.map_id]
  · rw [hcols] at hc
    rcases List.mem_append.mp hc with hc | hc
    · obtain ⟨g, hg, hcg, hsrc⟩ := mem_of_forall₂ hkept hc
      subst hcg
      refine ⟨(c.1, c.2), source.mem_of_column? hsrc, hct, fun heq => ?_⟩
      show passing w.test c.1 (grouped groupBy (alg.measureCell measures) a.rows) =
        passing w.test c.1 (grouped groupBy (alg.measureCell measures) b.rows)
      rw [passing_grouped hg, passing_grouped hg, heq]
    · obtain ⟨m, -, -, info, -, hmeas⟩ := mem_of_forall₂ hrest hc
      have := hct.2
      rw [hmeas] at this
      cases this

theorem agrees_pivot [DecidableEq V] {reads : Nat} {index : List String} {column value : String} {values : List String}
    {bindings : List PivotValueBinding} {source flow : Flow} {a b : Table V}
    (hp : Pivoted source index values flow.columns) (hs : SameConstraints source flow) (h : w.Agrees reads source a b) :
    w.Agrees reads flow (alg.pivoted index column value values bindings a)
      (alg.pivoted index column value values bindings b) := by
  refine h.unary (alg.pivoted index column value values bindings) (fun n => ?_) rfl hs fun c hc hct => ?_
  · show n ∈ index ++ values ↔ n ∈ flow.columns.map (·.1)
    rw [hp.names, List.mem_append]
  · rcases hp.column c hc with ⟨hi, hsrc⟩ | hn
    · refine ⟨(c.1, c.2), source.mem_of_column? hsrc, hct, fun heq => ?_⟩
      show passing w.test c.1 (grouped index (alg.pivotCell column value values bindings) a.rows) =
        passing w.test c.1 (grouped index (alg.pivotCell column value values bindings) b.rows)
      rw [passing_grouped hi, passing_grouped hi, heq]
    · have := hct.2
      rw [hn] at this
      cases this

theorem agrees_derive [DecidableEq V] {reads : Nat} {columns : List DerivedColumn} {source flow : Flow}
    {made : List (String × Column)} {a b : Table V} (happ : flow.columns = source.columns ++ made)
    (hmade : List.Forall₂ (fun (d : DerivedColumn) c => c.1 = d.output ∧ c.2.constraintEligible = false) columns made)
    (hs : SameConstraints source flow) (h : w.Agrees reads source a b) :
    w.Agrees reads flow (alg.derived columns a) (alg.derived columns b) := by
  refine h.unary (alg.derived columns) (fun n => ?_) ?_ hs fun c hc hct => ?_
  · show n ∈ a.columns ++ columns.map (·.output) ↔ n ∈ flow.columns.map (·.1)
    rw [happ, List.map_append, List.mem_append, List.mem_append, h.names,
      names_of_forall₂ (f := DerivedColumn.output) hmade fun _ _ h => h.1]
    rfl
  · show b.columns ++ columns.map (·.output) = a.columns ++ columns.map (·.output)
    rw [h.columns]
  · rw [happ] at hc
    rcases List.mem_append.mp hc with hc | hc
    · refine ⟨c, hc, hct, fun heq => ?_⟩
      have hin : c.1 ∈ a.columns := (h.names c.1).mpr (List.mem_map.mpr ⟨c, hc, rfl⟩)
      have hread : ∀ r : Row String V, alg.deriveRow a.columns columns r c.1 = r c.1 := fun r => if_pos hin
      show passing w.test c.1 (a.rows.map (alg.deriveRow a.columns columns)) =
        passing w.test c.1 (b.rows.map (alg.deriveRow b.columns columns))
      rw [h.columns, passing_map hread, passing_map hread, heq]
    · obtain ⟨d, -, -, hn⟩ := mem_of_forall₂ hmade hc
      have := hct.2
      rw [hn] at this
      cases this

theorem projectRow_apply {columns : List Projection} (hnd : (columns.map (·.aliasName)).Nodup) {p : Projection}
    (hp : p ∈ columns) (r : Row String V) : alg.projectRow columns r p.aliasName = r p.source := by
  have hfind : columns.find? (·.aliasName = p.aliasName) = some p := by
    induction columns with
    | nil => cases hp
    | cons q columns ih =>
      rw [List.map_cons, List.nodup_cons] at hnd
      rcases List.mem_cons.mp hp with rfl | hp
      · simp
      · have hne : q.aliasName ≠ p.aliasName := fun he => hnd.1 (he ▸ List.mem_map.mpr ⟨p, hp, rfl⟩)
        rw [List.find?_cons_of_neg (by simpa using hne)]
        exact ih hnd.2 hp
  unfold Algebra.projectRow
  rw [hfind]

theorem agrees_project [DecidableEq V] {reads : Nat} {columns : List Projection} {source flow : Flow} {a b : Table V}
    (hp : List.Forall₂ (ProjectedFrom source) columns flow.columns) (hnd : (columns.map (·.aliasName)).Nodup)
    (hs : SameConstraints source flow) (h : w.Agrees reads source a b) :
    w.Agrees reads flow (alg.projected columns a) (alg.projected columns b) := by
  refine h.unary (alg.projected columns) (fun n => ?_) rfl hs fun c hc hct => ?_
  · show n ∈ columns.map (·.aliasName) ↔ n ∈ flow.columns.map (·.1)
    rw [names_of_forall₂ (f := Projection.aliasName) hp fun _ _ h => h.1]
  · obtain ⟨p, hpm, hca, hsrc⟩ := mem_of_forall₂ hp hc
    refine ⟨(p.source, c.2), source.mem_of_column? hsrc, hct, fun heq => ?_⟩
    show passing w.test c.1 (a.rows.map (alg.projectRow columns)) =
      passing w.test c.1 (b.rows.map (alg.projectRow columns))
    have hread : ∀ r : Row String V, alg.projectRow columns r c.1 = r p.source := by
      intro r
      rw [hca]
      exact projectRow_apply hnd hpm r
    rw [passing_map hread, passing_map hread, heq]

theorem agrees_join [DecidableEq V] {leftReads rightReads : Nat} {leftKey rightKey : String} {joinType : JoinType}
    {left right flow : Flow} {a a' b b' : Table V} (hcols : flow.columns = left.columns ++ right.columns)
    (hapart : ∀ c ∈ right.columns, c.1 ∉ left.names)
    (hm : flow.memberConstraints = left.memberConstraints ++ right.memberConstraints.map (joinedMember joinType))
    (ht : flow.timeConstraints = left.timeConstraints ++ right.timeConstraints.map (joinedTime joinType))
    (hl : w.Agrees leftReads left a a') (hr : w.Agrees rightReads right b b') (hone : leftReads + rightReads ≤ 1) :
    w.Agrees (leftReads + rightReads) flow (alg.join leftKey rightKey joinType a b)
      (alg.join leftKey rightKey joinType a' b') := by
  refine ⟨fun n => ?_, ?_, fun h0 => ?_, fun hf => ?_, fun c hc hct => ?_⟩
  · show n ∈ a.columns ++ b.columns ↔ n ∈ flow.columns.map (·.1)
    rw [hcols, List.map_append, List.mem_append, List.mem_append, hl.names, hr.names]
    rfl
  · show a'.columns ++ b'.columns = a.columns ++ b.columns
    rw [hl.columns, hr.columns]
  · obtain ⟨hab, hml, htl⟩ := hl.unread (by omega)
    obtain ⟨hab', hmr, htr⟩ := hr.unread (by omega)
    refine ⟨by rw [hab, hab'], fun hf => ?_, fun c hc => ?_⟩
    · rcases w.joined _ _ _ _ hm ht hf with hf | ⟨hf, -⟩
      · exact hml hf
      · exact hmr hf
    · rw [hcols] at hc
      rcases List.mem_append.mp hc with hc | hc
      · exact htl c hc
      · exact htr c hc
  · -- The entity is read on one side only, and that side is the marked one.
    rcases w.joined _ _ _ _ hm ht hf with hf | ⟨hf, -⟩
    · have hr0 : rightReads = 0 := by
        by_contra hne
        exact (hl.unread (by omega)).2.1 hf
      rw [hl.marked hf, (hr.unread hr0).1]
    · have hl0 : leftReads = 0 := by
        by_contra hne
        exact (hr.unread (by omega)).2.1 hf
      rw [hr.marked hf, (hl.unread hl0).1]
  · rw [hcols] at hc
    rcases List.mem_append.mp hc with hc | hc
    · have hr0 : rightReads = 0 := by
        by_contra hne
        exact (hl.unread (by omega)).2.2 c hc hct
      have hin : c.1 ∈ a.columns := (hl.names c.1).mpr (List.mem_map.mpr ⟨c, hc, rfl⟩)
      have heq := hl.tracked c hc hct
      rw [← (hr.unread hr0).1]
      cases joinType with
      | inner =>
        show passing w.test c.1 (innerJoin a.columns _ a.rows b.rows) =
          passing w.test c.1 (innerJoin a'.columns _ a'.rows b.rows)
        rw [hl.columns, passing_innerJoin_left hin, passing_innerJoin_left hin, heq]
      | left =>
        show passing w.test c.1 (leftJoin a.columns _ alg.null a.rows b.rows) =
          passing w.test c.1 (leftJoin a'.columns _ alg.null a'.rows b.rows)
        rw [hl.columns, passing_leftJoin_left hin, passing_leftJoin_left hin, heq]
    · have hl0 : leftReads = 0 := by
        by_contra hne
        exact (hr.unread (by omega)).2.2 c hc hct
      have hout : c.1 ∉ a.columns := fun hin => hapart c hc ((hl.names c.1).mp hin)
      have heq := hr.tracked c hc hct
      rw [← (hl.unread hl0).1]
      cases joinType with
      | inner =>
        show passing w.test c.1 (innerJoin a.columns _ a.rows b.rows) =
          passing w.test c.1 (innerJoin a.columns _ a.rows b'.rows)
        rw [passing_innerJoin_right hout, passing_innerJoin_right hout, heq]
      | left =>
        show passing w.test c.1 (leftJoin a.columns _ alg.null a.rows b.rows) =
          passing w.test c.1 (leftJoin a.columns _ alg.null a.rows b'.rows)
        rw [passing_leftJoin_right w.null hout, passing_leftJoin_right w.null hout, heq]

/-! ## A whole graph -/

/-- The reads of a node from those of its dependencies. -/
def nodeReads (entityId : String) (parameters : NodeParameters) (inputs : List Nat) : Nat :=
  match parameters with
  | .select selected _ => if selected = entityId then 1 else 0
  | _ => inputs.sum

variable (w) in
/-- The inputs of a node: flows, reads and both tables, position by position. -/
inductive AgreesAll : List Flow → List Nat → List (Table V) → List (Table V) → Prop
  | nil : AgreesAll [] [] [] []
  | cons {flow : Flow} {k : Nat} {a b : Table V} {flows : List Flow} {ks : List Nat} {as bs : List (Table V)}
      (head : w.Agrees k flow a b) (tail : AgreesAll flows ks as bs) :
      AgreesAll (flow :: flows) (k :: ks) (a :: as) (b :: bs)

/-- A node's flow and its tables, from agreeing inputs. -/
theorem agrees_node [DecidableEq V] {data : Data V} {parameters : NodeParameters} {inputs : List Flow} {flow : Flow}
    (hn : NodeFlow v parameters inputs flow) {ks : List Nat} {as bs : List (Table V)}
    (hin : w.AgreesAll inputs ks as bs) (hone : nodeReads w.entityId parameters ks ≤ 1) :
    ∃ a b, alg.apply v.parseIso data parameters as = some a ∧
      alg.apply v.parseIso (narrow data w.entityId w.fieldId w.test) parameters bs = some b ∧
      w.Agrees (nodeReads w.entityId parameters ks) flow a b := by
  cases hn with
  | select hs hm ht =>
    cases hin
    exact ⟨_, _, rfl, rfl, agrees_select hs hm ht⟩
  | filter hc hp =>
    obtain _ | ⟨h, _ | _⟩ := hin
    exact ⟨_, _, rfl, rfl, by simpa [nodeReads] using agrees_filter hc hp h⟩
  | aggregate hk hs =>
    obtain _ | ⟨h, _ | _⟩ := hin
    exact ⟨_, _, rfl, rfl, by simpa [nodeReads] using agrees_aggregate hk hs h⟩
  | pivot hp hs =>
    obtain _ | ⟨h, _ | _⟩ := hin
    exact ⟨_, _, rfl, rfl, by simpa [nodeReads] using agrees_pivot hp hs h⟩
  | derive happ hd hs =>
    obtain _ | ⟨h, _ | _⟩ := hin
    exact ⟨_, _, rfl, rfl, by simpa [nodeReads] using agrees_derive happ hd hs h⟩
  | project hp hnd hs =>
    obtain _ | ⟨h, _ | _⟩ := hin
    exact ⟨_, _, rfl, rfl, by simpa [nodeReads] using agrees_project hp hnd hs h⟩
  | sort hcols hs =>
    obtain _ | ⟨h, _ | _⟩ := hin
    refine ⟨_, _, rfl, rfl, ?_⟩
    rw [show nodeReads w.entityId (.sort _) [_] = _ from Nat.add_zero _]
    refine h.unary id (fun n => ?_) h.columns hs fun c hc hct => ⟨c, hcols ▸ hc, hct, id⟩
    show n ∈ _ ↔ n ∈ flow.columns.map (·.1)
    rw [hcols]
    exact h.names n
  | join hcols hap hm ht =>
    obtain _ | ⟨hl, _ | ⟨hr, _ | _⟩⟩ := hin
    refine ⟨_, _, rfl, rfl, ?_⟩
    simp only [nodeReads, List.sum_cons, List.sum_nil, Nat.add_zero] at hone ⊢
    exact agrees_join hcols hap hm ht hl hr hone

variable (w) in
/-- Every flow of a node read at most once has tables that agree with it. -/
def AllAgree (nodes : List SQGNode) (flows : List (String × Flow)) (tables tables' : List (String × Table V)) : Prop :=
  ∀ id flow, flows.lookup id = some flow → ((readsOf w.entityId nodes).lookup id).getD 0 ≤ 1 →
    ∃ a b, tables.lookup id = some a ∧ tables'.lookup id = some b ∧
      w.Agrees (((readsOf w.entityId nodes).lookup id).getD 0) flow a b

theorem AllAgree.inputs {nodes : List SQGNode} {flows : List (String × Flow)} {tables tables' : List (String × Table V)}
    (h : w.AllAgree nodes flows tables tables') {ds : List String} {inputs : List Flow}
    (hin : List.Forall₂ (fun d flow => flows.lookup d = some flow) ds inputs)
    (hone : ∀ d ∈ ds, ((readsOf w.entityId nodes).lookup d).getD 0 ≤ 1) :
    ∃ as bs, (ds.mapM fun d => tables.lookup d) = some as ∧ (ds.mapM fun d => tables'.lookup d) = some bs ∧
      w.AgreesAll inputs (ds.map fun d => ((readsOf w.entityId nodes).lookup d).getD 0) as bs := by
  induction hin with
  | nil => exact ⟨[], [], rfl, rfl, .nil⟩
  | @cons d flow ds inputs hd _ ih =>
    obtain ⟨a, b, ha, hb, hab⟩ := h d flow hd (hone d List.mem_cons_self)
    obtain ⟨as, bs, has, hbs, hall⟩ := ih fun d hd => hone d (List.mem_cons_of_mem _ hd)
    refine ⟨a :: as, b :: bs, ?_, ?_, .cons hab hall⟩
    · exact option_mapM_eq_some.mpr (.cons ha (option_mapM_eq_some.mp has))
    · exact option_mapM_eq_some.mpr (.cons hb (option_mapM_eq_some.mp hbs))

theorem lookup_tableStep_ne [DecidableEq V] {data : Data V} {tables : List (String × Table V)} {node : SQGNode}
    {id : String} (h : id ≠ node.id) :
    (alg.tableStep v.parseIso data tables node).lookup id = tables.lookup id := by
  unfold Algebra.tableStep
  split
  · exact lookup_cons_ne h
  · rfl

theorem lookup_tableStep_self [DecidableEq V] {data : Data V} {tables : List (String × Table V)} {node : SQGNode}
    {inputs : List (Table V)} {table : Table V} (hm : (node.dependencies.mapM fun d => tables.lookup d) = some inputs)
    (ha : alg.apply v.parseIso data node.parameters inputs = some table) :
    (alg.tableStep v.parseIso data tables node).lookup node.id = some table := by
  simp [Algebra.tableStep, hm, ha]

theorem readsOf_snoc {entityId : String} {nodes : List SQGNode} {node : SQGNode} :
    readsOf entityId (nodes ++ [node]) = (node.id, nodeReads entityId node.parameters
      (node.dependencies.map fun d => ((readsOf entityId nodes).lookup d).getD 0)) :: readsOf entityId nodes := by
  unfold readsOf
  rw [List.foldl_append]
  show readStep entityId _ node = _
  unfold readStep nodeReads
  cases node.parameters <;> rfl

theorem le_nodeReads {parameters : NodeParameters} {ks : List Nat} {entityId : String} {k : Nat} (hk : k ∈ ks)
    (hs : ∀ e columns, parameters ≠ .select e columns) : k ≤ nodeReads entityId parameters ks := by
  unfold nodeReads
  split
  · next e columns => exact absurd rfl (hs e columns)
  · exact List.le_sum_of_mem hk

/-- The flows of a clean graph agree with its tables on a database and on the narrowed one. -/
theorem agrees_run [DecidableEq V] {data : Data V} {selected : List String} {nodes : List SQGNode}
    (h : (v.flowsOf selected nodes).notes = [])
    (hnodes : ∀ node ∈ nodes, node.operator = node.parameters.kind ∧ node.dependencies.length = node.operator.arity) :
    w.AllAgree nodes (v.flowsOf selected nodes).value (alg.tablesOf v.parseIso data nodes)
      (alg.tablesOf v.parseIso (narrow data w.entityId w.fieldId w.test) nodes) := by
  refine flowsOf_clean (P := fun done flows => w.AllAgree done flows (alg.tablesOf v.parseIso data done)
    (alg.tablesOf v.parseIso (narrow data w.entityId w.fieldId w.test) done)) h hnodes
    (fun _ _ h => by cases h) fun done node rest flows inputs flow _ hp hm hn id found hl hone => ?_
  rw [readsOf_snoc] at hone ⊢
  simp only [Algebra.tablesOf, List.foldl_append, List.foldl_cons, List.foldl_nil] at hp ⊢
  by_cases hid : id = node.id
  · subst hid
    simp only [List.lookup_cons, beq_self_eq_true, Option.some.injEq, Option.getD_some] at hl hone ⊢
    subst hl
    have hdeps := option_mapM_eq_some.mp hm
    -- A SELECT has no inputs; below any other node the entity is read at most as often.
    have hle : ∀ d ∈ node.dependencies, ((readsOf w.entityId done).lookup d).getD 0 ≤ 1 := by
      intro d hd
      refine Nat.le_trans (le_nodeReads (List.mem_map.mpr ⟨d, hd, rfl⟩) fun e columns he => ?_) hone
      rw [he] at hn
      cases hn
      rw [List.forall₂_nil_right_iff.mp hdeps] at hd
      cases hd
    obtain ⟨as, bs, has, hbs, hall⟩ := hp.inputs hdeps hle
    obtain ⟨a, b, ha, hb, hab⟩ := agrees_node hn hall hone
    exact ⟨a, b, lookup_tableStep_self has ha, lookup_tableStep_self hbs hb, hab⟩
  · rw [lookup_cons_ne hid] at hl hone ⊢
    rw [lookup_tableStep_ne hid, lookup_tableStep_ne hid]
    exact hp id found hl hone

/-- An accepted graph that reads the entity once and is marked does not see the rows that
    fail the test. -/
theorem evaluate_narrow [DecidableEq V] {data : Data V} {sqg : SQG} {context : SemanticContext}
    {terms : List ResolvedTerm} {windows : List TimeWindow} {mode : Option CompilationMode} {flow : Flow}
    (h : Accepted v sqg context terms windows mode flow) (hreads : sqg.reads w.entityId ≤ 1) (hm : w.Marked flow) :
    alg.evaluate v.parseIso data sqg =
      alg.evaluate v.parseIso (narrow data w.entityId w.fieldId w.test) sqg := by
  have hrun : w.AllAgree sqg.nodes _ (alg.tablesOf v.parseIso data sqg.nodes) _ := agrees_run h.flows h.shapes
  obtain ⟨a, b, ha, hb, hab⟩ := hrun _ _ h.output hreads
  unfold Algebra.evaluate
  rw [ha, hb, hab.marked hm]

end Watch

end SQGValidator

end DataNexus.Semantic
