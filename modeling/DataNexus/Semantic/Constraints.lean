/-
  DataNexus.Semantic.Constraints — what an accepted graph can see of a constrained entity.

  The resolved members of a field and the resolved windows of the time field are tests of
  the field's values; a row satisfies them when it passes those of its entity's fields
  (`satisfies`). `enforced_once`: if every constrained entity is read once and the windows
  name one field, the output is a function of the satisfying rows, and every member or
  time predicate of the graph is one of the resolved tests. The second half needs neither
  condition.

  - `selfJoin_leaks`: a second, unfiltered SELECT of the constrained entity, joined in over a
    relation of the entity with itself, is accepted, and rows outside the resolved members
    change the output. The validator counts one predicate for the field and finds it enforced;
    it does not ask whether the branch it stands on is the only one that reads the entity.
-/

import DataNexus.Semantic.Enforcement

namespace DataNexus.Semantic

open Lib Relational

namespace SQGValidator

variable {V : Type} (v : SQGValidator) (alg : Algebra V)

/-! ## The tests -/

def memberTest (terms : List ResolvedTerm) (fieldId : String) (x : V) : Bool :=
  (v.membersByField terms fieldId).any fun id => alg.compare .eq x (some (.text id))

/-- A test of one field of an entity. -/
structure FieldTest (V : Type) where
  entityId : String
  fieldId : String
  test : V → Bool

/-- The resolved members of each field, and each resolved window of each time field. -/
def resolvedTests (terms : List ResolvedTerm) (windows : List TimeWindow) (mode : Option CompilationMode) :
    List (FieldTest V) :=
  (v.registry.fields.filter fun field => !(v.membersByField terms field.id).isEmpty).map
      (fun field => ⟨field.entityId, field.id, v.memberTest alg terms field.id⟩) ++
    (v.registry.fields.filter fun field => (v.expectedTimeFields mode terms windows).contains field.id).flatMap
      fun field => (expectedFilterWindows mode windows).map fun window =>
        ⟨field.entityId, field.id, fun x => alg.within x window⟩

/-- The row of the entity passes the tests of its fields. -/
def satisfies (terms : List ResolvedTerm) (windows : List TimeWindow) (mode : Option CompilationMode)
    (entityId : String) (r : Row String V) : Bool :=
  (v.resolvedTests alg terms windows mode).all fun t => t.entityId ≠ entityId || t.test (r t.fieldId)

variable {v alg}

theorem field?_eq {name : String} {field : OntologyField} (h : v.registry.field? name = some field) :
    field ∈ v.registry.fields ∧ field.id = name :=
  ⟨List.mem_of_find?_eq_some h, by simpa using List.find?_some h⟩

theorem field?_of_mem {field : OntologyField} (h : field ∈ v.registry.fields) :
    v.registry.field? field.id = some field := by
  have hids := v.registry.uniqueIds
  have hnd : (v.registry.fields.map (·.id)).Nodup := by
    simp only [OntologyDocument.ids, List.append_assoc, List.nodup_append] at hids
    exact hids.2.1.1
  refine find?_eq_of_unique h (by simp) fun other ho he => ?_
  exact List.inj_on_of_nodup_map hnd ho h (by simpa using he)

/-- A metric does not have a field's id. -/
theorem metric_id_ne_field_id {metric : OntologyMetric} {field : OntologyField} (hm : metric ∈ v.registry.metrics)
    (hf : field ∈ v.registry.fields) : metric.id ≠ field.id := by
  have hids := v.registry.uniqueIds
  simp only [OntologyDocument.ids, List.append_assoc, List.nodup_append] at hids
  intro hid
  exact hids.2.1.2.2 field.id (List.mem_map.mpr ⟨field, hf, rfl⟩) metric.id
    (List.mem_append_left _ (List.mem_map.mpr ⟨metric, hm, rfl⟩)) hid.symm

theorem selected_field {field : OntologyField} (hfield : field ∈ v.registry.fields) {entityId name : String}
    {c : String × Column} (hs : Selected v entityId name c) (hc : c.2.sourceConceptId = some field.id) :
    name = field.id ∧ entityId = field.entityId := by
  obtain ⟨-, ⟨found, hf, he, hcol⟩ | ⟨metric, hm, he, hcol⟩⟩ := hs
  · obtain ⟨hmem, hid⟩ := field?_eq hf
    rw [hcol] at hc
    have hsame : found.id = field.id := Option.some.inj hc
    have hall := field?_of_mem hfield
    rw [← hsame, hid, hf] at hall
    obtain rfl := Option.some.inj hall
    exact ⟨hid.symm, he.symm⟩
  · exfalso
    rw [hcol] at hc
    exact metric_id_ne_field_id (List.mem_of_find?_eq_some hm) hfield (Option.some.inj hc)

theorem sourceConcept_of_member {entityId name fieldId : String} {c : String × Column}
    (hs : Selected v entityId name c) (hd : c.2.memberDomainFieldId = some fieldId) :
    c.2.sourceConceptId = some fieldId := by
  obtain ⟨-, ⟨found, -, -, hcol⟩ | ⟨metric, -, -, hcol⟩⟩ := hs
  · rw [hcol] at hd ⊢
    simp only [fieldColumn] at hd ⊢
    split at hd
    · cases hd
    · exact hd
  · rw [hcol] at hd
    cases hd

theorem sourceConcept_of_time {entityId name fieldId : String} {c : String × Column}
    (hs : Selected v entityId name c) (hd : c.2.timeDomainFieldId = some fieldId) :
    c.2.sourceConceptId = some fieldId := by
  obtain ⟨-, ⟨found, -, -, hcol⟩ | ⟨metric, -, -, hcol⟩⟩ := hs
  · rw [hcol] at hd ⊢
    simp only [fieldColumn] at hd ⊢
    split at hd
    · exact hd
    · cases hd
  · rw [hcol] at hd
    cases hd

/-! ## What a valid predicate keeps -/

/-- A predicate on a member column keeps the values equal to one of its members. -/
theorem keeps_member {predicate : Predicate} {column : Column} (hp : PredicateValid v predicate column)
    {fieldId : String} (hd : column.memberDomainFieldId = some fieldId) (x : V) :
    alg.keeps v.parseIso predicate x =
      (v.membersOf predicate.value).any fun id => alg.compare .eq x (some (.text id)) := by
  have hmembers : ∀ value ∈ scalarsOf predicate.value, ∃ id, value = .text id ∧ id ∈ v.membersOf predicate.value := by
    intro value hv
    obtain ⟨id, member, rfl, hm⟩ := hp.isMember hd value hv
    exact ⟨id, rfl, mem_membersOf.mpr ⟨hv, by simp [hm]⟩⟩
  have hany : ((scalarsOf predicate.value).any fun value => alg.compare .eq x (some value)) =
      (v.membersOf predicate.value).any fun id => alg.compare .eq x (some (.text id)) := by
    rw [Bool.eq_iff_iff, List.any_eq_true, List.any_eq_true]
    constructor
    · intro h
      obtain ⟨value, hv, hk⟩ := h
      obtain ⟨id, rfl, hid⟩ := hmembers value hv
      exact ⟨id, hid, hk⟩
    · intro h
      obtain ⟨id, hid, hk⟩ := h
      exact ⟨.text id, (mem_membersOf.mp hid).1, hk⟩
  rw [← hany]
  obtain ⟨name, operator, value⟩ := predicate
  rcases hp.member fieldId hd with ⟨ho, y, hy, -⟩ | ⟨ho, ys, hys, -, -⟩
  · dsimp only at ho hy
    subst ho hy
    simp [Algebra.keeps, scalarsOf]
  · dsimp only at ho hys
    subst ho hys
    rfl

theorem asUtc_eq {d : DateTime} {i : Int} (h : d.asUtc = some i) : d.instant = i := by
  unfold DateTime.asUtc at h
  split at h
  · exact Option.some.inj h
  · cases h

theorem windowOf_dict {value : PredicateValue} {window : Int × Int} (h : v.windowOf value = some window) :
    ∃ entries, value = .dict entries ∧ rangeInstants v.parseIso entries = some window := by
  unfold windowOf at h
  split at h
  · next entries =>
    refine ⟨entries, rfl, ?_⟩
    simp only [Option.bind_eq_some_iff] at h
    obtain ⟨range, hr, start, hs, stop, he, a, ha, b, hb, hw⟩ := h
    unfold rangeOf at hr
    split at hr
    · obtain ⟨first, hf, hr⟩ := Option.bind_eq_some_iff.mp hr
      obtain ⟨last, hl, rfl⟩ := Option.map_eq_some_iff.mp hr
      split at hw
      · rw [← Option.some.inj hw, ← asUtc_eq ha, ← asUtc_eq hb]
        simp [rangeInstants, hf, hl, hs, he]
      · cases hw
    · cases hr
  · cases h

/-- A BETWEEN keeps the values in its window. -/
theorem keeps_window {predicate : Predicate} (ho : predicate.operator = .between) {window : Int × Int}
    (hw : v.windowOf predicate.value = some window) (x : V) :
    alg.keeps v.parseIso predicate x = alg.within x window := by
  obtain ⟨entries, he, hr⟩ := windowOf_dict hw
  obtain ⟨name, operator, value⟩ := predicate
  dsimp only at ho he
  subst ho he
  simp [Algebra.keeps, hr]

/-! ## The watches -/

def memberWatch (terms : List ResolvedTerm) (field : OntologyField) (hfield : field ∈ v.registry.fields) :
    Watch v alg where
  fieldId := field.id
  entityId := field.entityId
  test := v.memberTest alg terms field.id
  domain := (·.memberDomainFieldId)
  Marked flow := ∃ c ∈ flow.memberConstraints, c.fieldId = field.id ∧ c.sourceEnforcing = true ∧
    ∀ id, id ∈ c.values ↔ id ∈ v.membersByField terms field.id
  null := by simp [memberTest, alg.compare_null]
  selected _ _ _ hs hd := selected_field hfield hs (sourceConcept_of_member hs hd)
  unmarked flow hm _ := by
    rw [hm]
    simp
  filtered predicate source column hc hp h := by
    obtain ⟨c, hmem, hf, he, hv⟩ := h
    rcases (mem_filteredFlow_members hc).mp hmem with hmem | ⟨fieldId, hd, -, rfl⟩
    · exact .inl ⟨c, hmem, hf, he, hv⟩
    · dsimp only at hf he hv
      subst hf
      refine .inr ⟨hd, he, fun x hk => ?_⟩
      rw [keeps_member hp hd, List.any_eq_true] at hk
      obtain ⟨id, hid, hk⟩ := hk
      exact List.any_eq_true.mpr ⟨id, (hv id).mp hid, hk⟩
  same source flow hs h := by
    rwa [hs.1] at h
  joined joinType left right flow hm _ h := by
    obtain ⟨c, hmem, hf, he, hv⟩ := h
    rw [hm] at hmem
    rcases List.mem_append.mp hmem with hmem | hmem
    · exact .inl ⟨c, hmem, hf, he, hv⟩
    · obtain ⟨d, hd, rfl⟩ := List.mem_map.mp hmem
      have he' : d.sourceEnforcing = true ∧ joinType = .inner := by simpa [joinedMember] using he
      exact .inr ⟨⟨d, hd, hf, he'.1, hv⟩, he'.2⟩

def timeWatch (window : Int × Int) (field : OntologyField) (hfield : field ∈ v.registry.fields) : Watch v alg where
  fieldId := field.id
  entityId := field.entityId
  test x := alg.within x window
  domain := (·.timeDomainFieldId)
  Marked flow := ∃ c ∈ flow.timeConstraints, c.fieldId = field.id ∧ c.sourceEnforcing = true ∧ c.window = some window
  null := alg.within_null window
  selected _ _ _ hs hd := selected_field hfield hs (sourceConcept_of_time hs hd)
  unmarked flow _ ht := by
    rw [ht]
    simp
  filtered predicate source column hc hp h := by
    obtain ⟨c, hmem, hf, he, hw⟩ := h
    rcases (mem_filteredFlow_times hc).mp hmem with hmem | ⟨fieldId, hd, rfl⟩
    · exact .inl ⟨c, hmem, hf, he, hw⟩
    · dsimp only at hf he hw
      subst hf
      refine .inr ⟨hd, he, fun x hk => ?_⟩
      split at hw
      · next ho => rwa [keeps_window ho hw] at hk
      · cases hw
  same source flow hs h := by
    rwa [hs.2] at h
  joined joinType left right flow _ ht h := by
    obtain ⟨c, hmem, hf, he, hw⟩ := h
    rw [ht] at hmem
    rcases List.mem_append.mp hmem with hmem | hmem
    · exact .inl ⟨c, hmem, hf, he, hw⟩
    · obtain ⟨d, hd, rfl⟩ := List.mem_map.mp hmem
      have he' : d.sourceEnforcing = true ∧ joinType = .inner := by simpa [joinedTime] using he
      exact .inr ⟨⟨d, hd, hf, he'.1, hw⟩, he'.2⟩

/-! ## The output depends on the satisfying rows -/

/-- The rows that fail one of the tests left out. -/
def narrowAll (data : Data V) (tests : List (FieldTest V)) : Data V :=
  tests.foldl (fun data t => narrow data t.entityId t.fieldId t.test) data

theorem narrowAll_apply (data : Data V) (tests : List (FieldTest V)) (e : String) :
    narrowAll data tests e =
      (data e).filter fun r => tests.all fun t => t.entityId ≠ e || t.test (r t.fieldId) := by
  induction tests generalizing data with
  | nil => simp [narrowAll]
  | cons t tests ih =>
    show narrowAll (narrow data t.entityId t.fieldId t.test) tests e = _
    rw [ih]
    by_cases he : e = t.entityId
    · subst he
      simp only [narrow, if_true, passing, Multiset.filter_filter]
      refine Multiset.filter_congr fun r _ => ?_
      simp [and_comm]
    · simp only [narrow, if_neg he]
      refine Multiset.filter_congr fun r _ => ?_
      have hne : t.entityId ≠ e := fun h => he h.symm
      simp [hne]

variable {sqg : SQG} {context : SemanticContext} {terms : List ResolvedTerm} {windows : List TimeWindow}
  {mode : Option CompilationMode} {flow : Flow}

/-- The windows that a graph must enforce name one field. -/
def OneTimeField (v : SQGValidator) (terms : List ResolvedTerm) (windows : List TimeWindow)
    (mode : Option CompilationMode) : Prop :=
  expectedFilterWindows mode windows ≠ [] → ∀ f ∈ v.expectedTimeFields mode terms windows,
    ∀ g ∈ v.expectedTimeFields mode terms windows, f = g

/-- Leaving out the rows that fail one resolved test does not change the output. -/
theorem evaluate_test [DecidableEq V] (h : Accepted v sqg context terms windows mode flow)
    (hone : OneTimeField v terms windows mode) {t : FieldTest V} (ht : t ∈ v.resolvedTests alg terms windows mode)
    (hreads : sqg.reads t.entityId ≤ 1) (data : Data V) :
    alg.evaluate v.parseIso data sqg =
      alg.evaluate v.parseIso (narrow data t.entityId t.fieldId t.test) sqg := by
  have hcov := covered_of_clean h.coverage
  rcases List.mem_append.mp ht with ht | ht
  · obtain ⟨field, hf, rfl⟩ := List.mem_map.mp ht
    obtain ⟨hmem, hne⟩ := List.mem_filter.mp hf
    refine (memberWatch terms field hmem).evaluate_narrow h hreads ?_
    exact hcov.enforcing h.membersOwned (by simpa using hne)
  · obtain ⟨field, hf, ht⟩ := List.mem_flatMap.mp ht
    obtain ⟨hmem, hin⟩ := List.mem_filter.mp hf
    obtain ⟨window, hw, rfl⟩ := List.mem_map.mp ht
    refine (timeWatch window field hmem).evaluate_narrow h hreads ?_
    have hin : field.id ∈ v.expectedTimeFields mode terms windows := by simpa using hin
    obtain ⟨c, hc, he, hcw⟩ := hcov.windowsEnforced window hw
    have hcf := hcov.timeFields (List.ne_nil_of_mem hin) c hc
    exact ⟨c, hc, hone (List.ne_nil_of_mem hw) _ hcf _ hin, he, hcw⟩

theorem evaluate_narrowAll [DecidableEq V] (h : Accepted v sqg context terms windows mode flow)
    (hone : OneTimeField v terms windows mode)
    (hreads : ∀ t ∈ v.resolvedTests alg terms windows mode, sqg.reads t.entityId ≤ 1) (data : Data V) :
    alg.evaluate v.parseIso data sqg =
      alg.evaluate v.parseIso (narrowAll data (v.resolvedTests alg terms windows mode)) sqg := by
  have hsub : ∀ tests : List (FieldTest V), tests ⊆ v.resolvedTests alg terms windows mode → ∀ data,
      alg.evaluate v.parseIso data sqg = alg.evaluate v.parseIso (narrowAll data tests) sqg := by
    intro tests
    induction tests with
    | nil =>
      intro _ data
      rfl
    | cons t tests ih =>
      intro hs data
      have ht := hs List.mem_cons_self
      rw [evaluate_test h hone ht (hreads t ht) data]
      exact ih (fun x hx => hs (List.mem_cons_of_mem _ hx)) _
  exact hsub _ (List.Subset.refl _) data

/-! ## No narrower predicate -/

/-- A predicate on a member column keeps exactly the resolved members of its field, one on
    a time column exactly a resolved window. -/
def KeepsResolved (v : SQGValidator) (alg : Algebra V) (terms : List ResolvedTerm) (windows : List TimeWindow)
    (mode : Option CompilationMode) (predicate : Predicate) (column : Column) : Prop :=
  (∀ fieldId, column.memberDomainFieldId = some fieldId →
    ∀ x, alg.keeps v.parseIso predicate x = v.memberTest alg terms fieldId x) ∧
  (∀ fieldId, column.timeDomainFieldId = some fieldId → ∃ window ∈ expectedFilterWindows mode windows,
    ∀ x, alg.keeps v.parseIso predicate x = alg.within x window)

theorem keepsResolved (h : Accepted v sqg context terms windows mode flow) {node : SQGNode} (hn : node ∈ sqg.nodes)
    {predicate : Predicate} (hp : node.parameters = .filter predicate) {d : String} (hd : d ∈ node.dependencies)
    {source : Flow} (hs : (v.flowsOf context.selected sqg.nodes).value.lookup d = some source) {column : Column}
    (hc : source.column? predicate.column = some column) :
    KeepsResolved v alg terms windows mode predicate column := by
  have hcov := covered_of_clean h.coverage
  obtain ⟨inputs, found, hin, hfound, hnf⟩ := h.flow_of_node hn
  have hcar := h.carried hn hfound
  rw [hp] at hnf
  obtain ⟨x, hx, hlook⟩ := exists_mapM_lookup hin hd
  obtain rfl : source = x := Option.some.inj (hs.symm.trans hlook)
  obtain _ | ⟨hc', hvalid⟩ := hnf
  obtain rfl := List.mem_singleton.mp hx
  obtain rfl := Option.some.inj (hc.symm.trans hc')
  constructor
  · intro fieldId hdom x
    rw [keeps_member hvalid hdom]
    have hop : predicate.operator = .eq ∨ predicate.operator = .isIn :=
      (hvalid.member fieldId hdom).imp And.left And.left
    obtain ⟨e, he, hef, hev⟩ := hcar.members _ ((mem_filteredFlow_members hc).mpr (.inr ⟨fieldId, hdom, hop, rfl⟩))
    dsimp only at hef hev
    -- The predicate names a member, the member was resolved, so the field has resolved members.
    have hsome : ∃ id, id ∈ v.membersOf predicate.value := by
      rcases hvalid.member fieldId hdom with ⟨-, y, hy, id, m, rfl, hm⟩ | ⟨-, ys, hys, hne, hall⟩
      · exact ⟨id, mem_membersOf.mpr ⟨by simp [hy, scalarsOf], by simp [hm]⟩⟩
      · obtain ⟨y, hy⟩ := List.exists_mem_of_ne_nil _ hne
        obtain ⟨id, m, rfl, hm⟩ := hall y hy
        exact ⟨id, mem_membersOf.mpr ⟨by simpa [hys, scalarsOf] using hy, by simp [hm]⟩⟩
    obtain ⟨id, hid⟩ := hsome
    have hres : id ∈ v.membersByField terms e.fieldId := by
      obtain ⟨m, hm⟩ := h.membersOwned e he id (hev ▸ hid)
      exact List.mem_filter.mpr ⟨hcov.introduced e he id (hev ▸ hid), by simp [hm]⟩
    have hiff := hcov.exact e he (List.ne_nil_of_mem hres)
    rw [hev, hef] at hiff
    rw [memberTest, Bool.eq_iff_iff, List.any_eq_true, List.any_eq_true]
    constructor
    · intro hk
      obtain ⟨id, hid, hk⟩ := hk
      exact ⟨id, (hiff id).mp hid, hk⟩
    · intro hk
      obtain ⟨id, hid, hk⟩ := hk
      exact ⟨id, (hiff id).mpr hid, hk⟩
  · intro fieldId hdom
    obtain ⟨e, he, -, hew⟩ := hcar.times _ ((mem_filteredFlow_times hc).mpr (.inr ⟨fieldId, hdom, rfl⟩))
    dsimp only at hew
    obtain ⟨window, hw, hwe⟩ := hcov.windowsIntroduced e he
    rw [hew] at hwe
    split at hwe
    · next ho => exact ⟨window, hw, keeps_window ho hwe⟩
    · cases hwe

/-! ## Accepted graphs -/

/-- The field has resolved members, or is a time field of the resolved windows. -/
def Constrained (v : SQGValidator) (terms : List ResolvedTerm) (windows : List TimeWindow)
    (mode : Option CompilationMode) (field : OntologyField) : Prop :=
  v.membersByField terms field.id ≠ [] ∨
    (field.id ∈ v.expectedTimeFields mode terms windows ∧ expectedFilterWindows mode windows ≠ [])

theorem constrained_of_test {t : FieldTest V} (ht : t ∈ v.resolvedTests alg terms windows mode) :
    ∃ field ∈ v.registry.fields, Constrained v terms windows mode field ∧ field.entityId = t.entityId := by
  rcases List.mem_append.mp ht with ht | ht
  · obtain ⟨field, hf, rfl⟩ := List.mem_map.mp ht
    obtain ⟨hmem, hne⟩ := List.mem_filter.mp hf
    exact ⟨field, hmem, .inl (by simpa using hne), rfl⟩
  · obtain ⟨field, hf, ht⟩ := List.mem_flatMap.mp ht
    obtain ⟨hmem, hin⟩ := List.mem_filter.mp hf
    obtain ⟨window, hw, rfl⟩ := List.mem_map.mp ht
    exact ⟨field, hmem, .inr ⟨by simpa using hin, List.ne_nil_of_mem hw⟩, rfl⟩

/-- The output of an accepted graph that reads each constrained entity once is a function
    of the rows that satisfy the resolved constraints, and no member or time predicate of
    the graph is narrower than they are. -/
theorem enforced_once {V : Type} [DecidableEq V] (v : SQGValidator) (alg : Algebra V) (sqg : SQG)
    (context : SemanticContext) (terms : List ResolvedTerm) (windows : List TimeWindow) (mode : Option CompilationMode)
    (hvalid : (v.validate sqg context terms windows mode).valid = true)
    (hreads : ∀ field ∈ v.registry.fields, Constrained v terms windows mode field → sqg.reads field.entityId ≤ 1)
    (hone : OneTimeField v terms windows mode) :
    (∀ data data' : Data V,
      (∀ e, (data e).filter (fun r => v.satisfies alg terms windows mode e r) =
        (data' e).filter (fun r => v.satisfies alg terms windows mode e r)) →
      alg.evaluate v.parseIso data sqg = alg.evaluate v.parseIso data' sqg) ∧
    ∀ node ∈ sqg.nodes, ∀ predicate, node.parameters = .filter predicate → ∀ d ∈ node.dependencies, ∀ source column,
      (v.flowsOf context.selected sqg.nodes).value.lookup d = some source →
      source.column? predicate.column = some column → KeepsResolved v alg terms windows mode predicate column := by
  obtain ⟨flow, h⟩ := accepted_of_valid hvalid
  constructor
  · intro data data' hsame
    have hreads' : ∀ t ∈ v.resolvedTests alg terms windows mode, sqg.reads t.entityId ≤ 1 := by
      intro t ht
      obtain ⟨field, hmem, hc, he⟩ := constrained_of_test ht
      exact he ▸ hreads field hmem hc
    have hdata : narrowAll data (v.resolvedTests alg terms windows mode) =
        narrowAll data' (v.resolvedTests alg terms windows mode) := by
      funext e
      rw [narrowAll_apply, narrowAll_apply]
      exact hsame e
    rw [evaluate_narrowAll h hone hreads' data, hdata, ← evaluate_narrowAll h hone hreads' data']
  · intro node hn predicate hp d hd source column hs hc
    exact keepsResolved h hn hp hd hs hc

/-! ## A second read -/

section SelfJoin

/-- Accounts with a governed segment, each with the account above it. -/
def accounts : OntologyRegistry where
  entities := [{ id := "crm.account", label := "Account" }]
  fields := [
    { id := "crm.account.segment", entityId := "crm.account", label := "Segment", dataType := .string,
      members := [{ id := "segment.retail" }, { id := "segment.public" }] },
    { id := "crm.account.id", entityId := "crm.account", label := "Id", dataType := .string },
    { id := "crm.account.parent", entityId := "crm.account", label := "Parent", dataType := .string }]
  metrics := []
  relations := [
    { id := "crm.account.reports_to", fromEntityId := "crm.account", toEntityId := "crm.account",
      fromFieldId := "crm.account.parent", toFieldId := "crm.account.id" }]
  uniqueIds := by decide
  fieldEntities := by decide
  metricEntities := by decide
  endpoints := by decide

def accountsContext : SemanticContext :=
  ⟨accounts.entities, accounts.fields, accounts.metrics, accounts.relations⟩

/-- Values are texts; of the operations only equality is used. -/
def texts : Algebra (Option String) where
  null := none
  compare operator x value :=
    match operator, x, value with
    | .eq, some a, some (.text b) => a = b
    | _, _, _ => false
  within _ _ := false
  isAt _ _ := false
  joins x y := x.isSome && x = y
  aggregate _ _ := none
  arithmetic _ _ _ := none
  literal _ _ := none
  compare_null _ := rfl
  within_null _ := rfl

/-- The retail accounts with their parents' ids; the second SELECT has no filter. -/
def selfJoin : SQG where
  nodes := [
    { id := "accounts", operator := .select,
      parameters := .select "crm.account" ["crm.account.segment", "crm.account.parent"] },
    { id := "retail", operator := .filter, dependencies := ["accounts"],
      parameters := .filter ⟨"crm.account.segment", .eq, .scalar (.text "segment.retail")⟩ },
    { id := "parents", operator := .select, parameters := .select "crm.account" ["crm.account.id"] },
    { id := "joined", operator := .join, dependencies := ["retail", "parents"],
      parameters := .join "crm.account.reports_to" "crm.account.parent" "crm.account.id" .inner }]
  outputNodeId := "joined"

/-- The first two nodes alone. -/
def retailOnly : SQG := { selfJoin with nodes := selfJoin.nodes.take 2, outputNodeId := "retail" }

def retailTerm : List ResolvedTerm := [⟨.member, "segment.retail"⟩]

def accountRow (segment id parent : String) : Row String (Option String) := fun c =>
  if c = "crm.account.segment" then some segment
  else if c = "crm.account.id" then some id
  else if c = "crm.account.parent" then some parent
  else none

/-- A retail account below a public one, which `all` has and its counterpart lacks. -/
def accountData (all : Bool) : Data (Option String) := fun e =>
  if e = "crm.account" then
    accountRow "segment.retail" "a" "b" ::ₘ if all then {accountRow "segment.public" "b" "b"} else 0
  else 0

def accountsValidator : SQGValidator := ⟨accounts, fun _ => none⟩

theorem public_fails :
    accountsValidator.satisfies texts retailTerm [] none "crm.account" (accountRow "segment.public" "b" "b") = false := by
  decide +kernel

theorem accountData_same (e : String) :
    (accountData true e).filter (fun r => accountsValidator.satisfies texts retailTerm [] none e r) =
      (accountData false e).filter fun r => accountsValidator.satisfies texts retailTerm [] none e r := by
  by_cases he : e = "crm.account"
  · subst he
    have hnone : Multiset.filter (fun r => accountsValidator.satisfies texts retailTerm [] none "crm.account" r = true)
        {accountRow "segment.public" "b" "b"} = 0 := by
      rw [Multiset.filter_singleton, public_fails]
      rfl
    show Multiset.filter _ (accountRow "segment.retail" "a" "b" ::ₘ {accountRow "segment.public" "b" "b"}) =
      Multiset.filter _ (accountRow "segment.retail" "a" "b" ::ₘ 0)
    rw [Multiset.filter_cons, Multiset.filter_cons, hnone, Multiset.filter_zero]
  · simp [accountData, he]

/-- The graph is accepted, and a public account decides whether the retail one is listed. -/
theorem selfJoin_leaks :
    (accountsValidator.validate selfJoin accountsContext retailTerm [] none).valid = true ∧
      (∀ e, (accountData true e).filter (fun r => accountsValidator.satisfies texts retailTerm [] none e r) =
        (accountData false e).filter fun r => accountsValidator.satisfies texts retailTerm [] none e r) ∧
      (texts.evaluate accountsValidator.parseIso (accountData true) selfJoin).map Table.values ≠
        (texts.evaluate accountsValidator.parseIso (accountData false) selfJoin).map Table.values :=
  ⟨by decide +kernel, accountData_same, by decide +kernel⟩

theorem retailOnly_reads : ∀ field ∈ accountsValidator.registry.fields, retailOnly.reads field.entityId ≤ 1 := by
  decide +kernel

/-- Without the second read the public account does not count. -/
theorem retailOnly_enforced :
    (accountsValidator.validate retailOnly accountsContext retailTerm [] none).valid = true ∧
      texts.evaluate accountsValidator.parseIso (accountData true) retailOnly =
        texts.evaluate accountsValidator.parseIso (accountData false) retailOnly :=
  ⟨by decide +kernel,
    (enforced_once accountsValidator texts retailOnly accountsContext retailTerm [] none (by decide +kernel)
      (fun field hf _ => retailOnly_reads field hf) (by simp [OneTimeField, expectedFilterWindows, expectedWindows])).1 _ _ accountData_same⟩

end SelfJoin

end SQGValidator

end DataNexus.Semantic
