/-
  DataNexus.Semantic.Acceptance — what an accepted candidate is.

  `validate` accepts when nothing was noted, so its parts noted nothing: the graph's
  structure (`Accepted`), and on the output's flow the coverage of the resolved members
  and windows (`Covered`). Every member constraint of a flow holds members of its own
  field, which is what ties the enforced members to the field they constrain.
-/

import DataNexus.Semantic.ValidatorSpec

namespace DataNexus.Semantic

open Lib Noted

namespace SQGValidator

variable {v : SQGValidator}

/-- The parts of an acceptance. -/
structure Accepted (v : SQGValidator) (sqg : SQG) (context : SemanticContext) (terms : List ResolvedTerm)
    (windows : List TimeWindow) (mode : Option CompilationMode) (flow : Flow) : Prop where
  positions : ∀ item ∈ sqg.nodes.zipIdx, position? sqg.nodes item.1.id = some item.2
  shapes : ∀ node ∈ sqg.nodes, node.operator = node.parameters.kind ∧ node.dependencies.length = node.operator.arity
  earlier : ∀ item ∈ sqg.nodes.zipIdx, ∀ d ∈ item.1.dependencies, ∃ i, position? sqg.nodes d = some i ∧ i < item.2
  needed : ∀ node ∈ sqg.nodes, node.id ∈ sqg.ancestors
  flows : (v.flowsOf context.selected sqg.nodes).notes = []
  output : (v.flowsOf context.selected sqg.nodes).value.lookup sqg.outputNodeId = some flow
  coverage : (v.validateConstraintCoverage (some flow) terms windows mode).notes = []
  trusted : ∀ m, mode = some m → (validateCompilationMode sqg (some flow) m terms windows).notes = []

theorem checkDependency_clean {nodes : List SQGNode} {index : Nat} {node : SQGNode} {item : String × Nat}
    (h : (checkDependency nodes index node item).notes = []) : ∃ i, position? nodes item.1 = some i ∧ i < index := by
  unfold checkDependency at h
  simp only [notes_bind, List.append_eq_nil_iff] at h
  have h := h.2
  split at h
  · simp at h
  · cases hp : position? nodes item.1 with
    | none => simp [hp] at h
    | some i => exact ⟨i, rfl, by simpa [hp] using h⟩

theorem checkDependencies_clean {nodes : List SQGNode} {index : Nat} {node : SQGNode}
    (h : (checkDependencies nodes index node).notes = []) :
    (∀ d ∈ node.dependencies, ∃ i, position? nodes d = some i ∧ i < index) ∧
      node.dependencies.length = node.operator.arity := by
  simp only [checkDependencies, notes_bind, List.append_eq_nil_iff, forM_clean, notes_noteIf,
    decide_eq_false_iff_not, not_not] at h
  refine ⟨fun d hd => ?_, h.2⟩
  obtain ⟨i, hi⟩ := exists_mem_zipIdx hd
  exact checkDependency_clean (h.1 _ hi)

/-- A clean check of the structure is one of a valid dependency structure. -/
theorem checkStructure_clean {sqg : SQG} (h : sqg.checkStructure.notes = []) :
    (∀ item ∈ sqg.nodes.zipIdx, position? sqg.nodes item.1.id = some item.2) ∧
      (∀ item ∈ sqg.nodes.zipIdx, item.1.operator = item.1.parameters.kind ∧
        (checkDependencies sqg.nodes item.2 item.1).notes = []) ∧ sqg.dependencyStructureValid = true ∧
      ∀ node ∈ sqg.nodes, node.id ∈ sqg.ancestors := by
  simp only [SQG.checkStructure, notes_bind, List.append_eq_nil_iff, forM_clean] at h
  obtain ⟨hids, hnodes, hout⟩ := h
  have hpos : ∀ item ∈ sqg.nodes.zipIdx, position? sqg.nodes item.1.id = some item.2 := by
    intro item hi
    simpa [checkId] using hids item hi
  have hnode : ∀ item ∈ sqg.nodes.zipIdx, item.1.operator = item.1.parameters.kind ∧
      (checkDependencies sqg.nodes item.2 item.1).notes = [] := by
    intro item hi
    simpa [checkNode] using hnodes item hi
  have hsome : (position? sqg.nodes sqg.outputNodeId).isSome = true := by
    by_contra hn
    simp [Option.not_isSome_iff_eq_none.mp hn] at hout
  have hvalid : sqg.dependencyStructureValid = true := by
    simp only [SQG.dependencyStructureValid, hsome, Bool.and_true, List.all_eq_true, Bool.and_eq_true,
      decide_eq_true_eq, List.isEmpty_iff]
    intro item hi
    exact ⟨hpos item hi, (hnode item hi).2⟩
  refine ⟨hpos, hnode, hvalid, fun node hn => ?_⟩
  obtain ⟨i, hi⟩ := exists_mem_zipIdx hn
  rw [if_neg (by simp [Option.isSome_iff_ne_none.mp hsome]), if_pos hvalid, forM_clean] at hout
  simpa using hout _ hi

theorem accepted_of_valid {sqg : SQG} {context : SemanticContext} {terms : List ResolvedTerm}
    {windows : List TimeWindow} {mode : Option CompilationMode}
    (h : (v.validate sqg context terms windows mode).valid = true) :
    ∃ flow, Accepted v sqg context terms windows mode flow := by
  unfold validate at h
  cases hl : (v.validateFlows sqg context terms windows mode).value.lookup sqg.outputNodeId with
  | none => simp [hl, ValidationResult.valid] at h
  | some flow =>
    simp only [hl, ValidationResult.valid, Bool.and_eq_true, List.isEmpty_iff, List.append_eq_nil_iff] at h
    obtain ⟨-, hnotes, -⟩ := h
    simp only [validateFlows, notes_bind, List.append_eq_nil_iff] at hnotes
    obtain ⟨hstruct, hrest⟩ := hnotes
    obtain ⟨hpos, hnode, hvalid, hneeded⟩ := checkStructure_clean hstruct
    simp only [hvalid, if_true, notes_bind, List.append_eq_nil_iff] at hrest
    obtain ⟨hflows, hcov, hmode⟩ := hrest
    simp only [validateFlows, hvalid, if_true, value_bind] at hl
    have hout : (v.flowsOf context.selected sqg.nodes).value.lookup sqg.outputNodeId = some flow := by
      cases mode <;> exact hl
    refine ⟨flow, ⟨hpos, fun node hn => ?_, fun item hi => ?_, hneeded, hflows, hout, ?_,
      fun m hm => ?_⟩⟩
    · obtain ⟨i, hi⟩ := exists_mem_zipIdx hn
      exact ⟨(hnode _ hi).1, (checkDependencies_clean (hnode _ hi).2).2⟩
    · exact (checkDependencies_clean (hnode item hi).2).1
    · rwa [hout] at hcov
    · subst hm
      simp only [hout, notes_bind, List.append_eq_nil_iff] at hmode
      exact hmode.1

variable {sqg : SQG} {context : SemanticContext} {terms : List ResolvedTerm} {windows : List TimeWindow}
  {mode : Option CompilationMode} {flow : Flow}

theorem nodup_of_positions {nodes : List SQGNode}
    (h : ∀ item ∈ nodes.zipIdx, position? nodes item.1.id = some item.2) : (nodes.map (·.id)).Nodup := by
  rw [List.nodup_iff_injective_getElem]
  intro i j hij
  have hpos : ∀ k : Fin (nodes.map (·.id)).length, position? nodes ((nodes.map (·.id))[k]) = some k.1 := by
    intro k
    have hk : k.1 < nodes.length := by simpa using k.2
    have := h (nodes[k.1], k.1) (List.mk_mem_zipIdx_iff_getElem?.mpr (List.getElem?_eq_getElem hk))
    simpa using this
  have := (hpos i).symm.trans ((congrArg (position? nodes) hij).trans (hpos j))
  exact Fin.ext (Option.some.inj this)

theorem Accepted.nodup (h : Accepted v sqg context terms windows mode flow) : (sqg.nodes.map (·.id)).Nodup :=
  nodup_of_positions h.positions

/-- A node's check sees the flows through those of its dependencies. -/
theorem validateNode_congr {selected : List String} {flows flows' : List (String × Flow)} {node : SQGNode} (index : Nat)
    (h : (node.dependencies.mapM fun d => flows.lookup d) = node.dependencies.mapM fun d => flows'.lookup d) :
    v.validateNode selected flows node index = v.validateNode selected flows' node index := by
  unfold validateNode
  rw [h]

/-- Every node is clean, and has its flow, against the flows of the whole graph. -/
theorem Accepted.clean_node (h : Accepted v sqg context terms windows mode flow) {item : SQGNode × Nat}
    (hn : item ∈ sqg.nodes.zipIdx) :
    (v.validateNode context.selected (v.flowsOf context.selected sqg.nodes).value item.1 item.2).notes = [] ∧
      (v.validateNode context.selected (v.flowsOf context.selected sqg.nodes).value item.1 item.2).value =
        (v.flowsOf context.selected sqg.nodes).value.lookup item.1.id := by
  have := foldlM_clean h.flows
    (P := fun done flows => (∀ id found, flows.lookup id = some found → id ∈ done.map (·.1.id)) ∧
      ∀ item ∈ done, (v.validateNode context.selected flows item.1 item.2).notes = [] ∧
        (v.validateNode context.selected flows item.1 item.2).value = flows.lookup item.1.id)
    ⟨(fun _ _ h => by cases h), (fun _ h => by cases h)⟩
    (fun done x rest flows hsplit hp hc => by
      have hids : ∀ y ∈ done ++ x :: rest, y.1 ∈ sqg.nodes := by
        intro y hy
        rw [← hsplit] at hy
        exact (List.mem_zipIdx' hy).2 ▸ List.getElem_mem _
      have hnew : x.1.id ∉ done.map (·.1.id) := by
        have hnd := h.nodup
        have hmap : sqg.nodes.map (·.id) = (sqg.nodes.zipIdx.map (·.1)).map (·.id) := by simp
        rw [hmap, hsplit, List.map_append, List.map_append, List.map_cons, List.map_cons] at hnd
        intro hin
        refine (List.nodup_append.mp hnd).2.2 x.1.id ?_ _ List.mem_cons_self rfl
        simpa using hin
      unfold flowStep at hc ⊢
      simp only [notes_bind, List.append_eq_nil_iff, value_bind] at hc ⊢
      have hx : x.1 ∈ sqg.nodes := hids x (by simp)
      obtain ⟨inputs, found, hm, hv, -⟩ := validateNode_clean hc.1 (h.shapes _ hx).1 (h.shapes _ hx).2
      rw [hv]
      -- No flow found so far has the new id, so what a node saw of the flows stays.
      have hkeep : ∀ y ∈ done ++ x :: rest, ∀ xs, (y.1.dependencies.mapM fun d => flows.lookup d) = some xs →
          v.validateNode context.selected ((x.1.id, found) :: flows) y.1 y.2 =
            v.validateNode context.selected flows y.1 y.2 := by
        intro y _ xs hxs
        refine validateNode_congr y.2 ?_
        rw [hxs, option_mapM_eq_some]
        refine (option_mapM_eq_some.mp hxs).imp fun d f hd => ?_
        have hne : d ≠ x.1.id := by
          intro he
          exact hnew (he ▸ hp.1 d f hd)
        rw [lookup_cons_ne hne]
        exact hd
      refine ⟨fun id f hf => ?_, fun y hy => ?_⟩
      · rw [List.map_append, List.mem_append]
        by_cases hid : id = x.1.id
        · exact .inr (by simp [hid])
        · exact .inl (hp.1 id f (by rwa [value_pure, lookup_cons_ne hid] at hf))
      · rcases List.mem_append.mp hy with hy | hy
        · obtain ⟨hnotes, hvalue⟩ := hp.2 y hy
          have hy' : y ∈ done ++ x :: rest := List.mem_append_left _ hy
          obtain ⟨xs, f, hxs, hf, -⟩ := validateNode_clean hnotes (h.shapes _ (hids y hy')).1 (h.shapes _ (hids y hy')).2
          have hne : y.1.id ≠ x.1.id := fun he => hnew (he ▸ List.mem_map.mpr ⟨y, hy, rfl⟩)
          simp only [value_pure]
          rw [hkeep y hy' xs hxs, lookup_cons_ne hne]
          exact ⟨hnotes, hvalue⟩
        · obtain rfl := List.mem_singleton.mp hy
          simp only [value_pure]
          rw [hkeep y (by simp) inputs hm, hv]
          exact ⟨hc.1, by simp⟩)
  exact this.2 item hn

/-- The flow of every node, from the flows of its dependencies. -/
theorem Accepted.flow_of_node (h : Accepted v sqg context terms windows mode flow) {node : SQGNode}
    (hn : node ∈ sqg.nodes) :
    ∃ inputs found,
      (node.dependencies.mapM fun d => (v.flowsOf context.selected sqg.nodes).value.lookup d) = some inputs ∧
      (v.flowsOf context.selected sqg.nodes).value.lookup node.id = some found ∧
      NodeFlow v node.parameters inputs found := by
  obtain ⟨i, hi⟩ := exists_mem_zipIdx hn
  obtain ⟨hnotes, hvalue⟩ := h.clean_node hi
  obtain ⟨inputs, found, hm, hv, hf⟩ := validateNode_clean hnotes (h.shapes node hn).1 (h.shapes node hn).2
  exact ⟨inputs, found, hm, hvalue.symm.trans hv, hf⟩

/-! ## Coverage -/

theorem mem_sortedDifference {xs ys : List String} {x : String} : x ∈ sortedDifference xs ys ↔ x ∈ xs ∧ x ∉ ys := by
  rw [sortedDifference, (Kahn.sorted_perm _).mem_iff]
  simp

theorem mem_windowDifference {xs ys : List (Int × Int)} {w : Int × Int} :
    w ∈ windowDifference xs ys ↔ w ∈ xs ∧ w ∉ ys := by
  simp [windowDifference]

theorem sameSet_iff {xs ys : List String} : sameSet xs ys = true ↔ ∀ x, x ∈ xs ↔ x ∈ ys := by
  simp only [sameSet, Bool.and_eq_true, List.all_eq_true, List.contains_iff_mem]
  constructor
  · intro h x
    exact ⟨h.1 x, h.2 x⟩
  · intro h
    exact ⟨fun x => (h x).mp, fun x => (h x).mpr⟩

/-- The output's constraints against the resolved members and windows. -/
structure Covered (v : SQGValidator) (terms : List ResolvedTerm) (windows : List TimeWindow)
    (mode : Option CompilationMode) (flow : Flow) : Prop where
  representable : ∀ window ∈ windows, (windowInstants window).isSome
  timeFields : v.expectedTimeFields mode terms windows ≠ [] →
    ∀ c ∈ flow.timeConstraints, c.fieldId ∈ v.expectedTimeFields mode terms windows
  oneEach : ∀ c ∈ flow.memberConstraints, flow.memberPredicates c.fieldId = [c.values]
  exact : ∀ c ∈ flow.memberConstraints, v.membersByField terms c.fieldId ≠ [] →
    ∀ id, id ∈ c.values ↔ id ∈ v.membersByField terms c.fieldId
  enforced : ∀ id ∈ expectedMembers terms, ∃ c ∈ flow.memberConstraints, c.sourceEnforcing = true ∧ id ∈ c.values
  introduced : ∀ c ∈ flow.memberConstraints, ∀ id ∈ c.values, id ∈ expectedMembers terms
  windowsEnforced : ∀ window ∈ expectedFilterWindows mode windows, ∃ c ∈ flow.timeConstraints,
    c.sourceEnforcing = true ∧ c.window = some window
  windowsIntroduced : ∀ c ∈ flow.timeConstraints, ∃ window ∈ expectedFilterWindows mode windows, c.window = some window
  count : flow.timeConstraints.length = (expectedFilterWindows mode windows).length

theorem checkMemberShape_clean {flow : Flow} {terms : List ResolvedTerm} {fieldId : String}
    (h : (v.checkMemberShape flow terms fieldId).notes = []) :
    ∃ values, flow.memberPredicates fieldId = [values] ∧
      (v.membersByField terms fieldId ≠ [] → ∀ id, id ∈ values ↔ id ∈ v.membersByField terms fieldId) := by
  unfold checkMemberShape at h
  split at h
  · next values hv =>
    refine ⟨values, hv, fun hne => sameSet_iff.mp ?_⟩
    simpa [hne] using h
  · simp at h

theorem mem_memberPredicates {flow : Flow} {c : MemberConstraint} (hc : c ∈ flow.memberConstraints) :
    c.values ∈ flow.memberPredicates c.fieldId :=
  List.mem_map.mpr ⟨c, List.mem_filter.mpr ⟨hc, by simp⟩, rfl⟩

theorem checkTimeShape_clean {flow : Flow} {fields : List String} {filterWindows : List (Int × Int)}
    (h : (checkTimeShape flow fields filterWindows).notes = []) :
    (∀ window ∈ filterWindows, window ∈ flow.enforcedWindows fields) ∧
      (∀ window ∈ flow.introducedWindows, window ∈ filterWindows) ∧
      flow.timeConstraints.length = filterWindows.length ∧ ∀ c ∈ flow.timeConstraints, c.window.isSome := by
  simp only [checkTimeShape, notes_bind, List.append_eq_nil_iff, notes_noteIf, decide_eq_false_iff_not, not_not,
    Bool.or_eq_false_iff, List.any_eq_false] at h
  obtain ⟨hmissing, hintro, hlen, hsome⟩ := h
  refine ⟨fun window hw => ?_, fun window hw => ?_, hlen, fun c hc => ?_⟩
  · by_contra hn
    exact List.not_mem_nil (hmissing ▸ mem_windowDifference.mpr ⟨hw, hn⟩)
  · by_contra hn
    exact List.not_mem_nil (hintro ▸ mem_windowDifference.mpr ⟨hw, hn⟩)
  · exact Option.isSome_iff_ne_none.mpr (by simpa using hsome c hc)

theorem covered_of_clean {flow : Flow} {terms : List ResolvedTerm} {windows : List TimeWindow}
    {mode : Option CompilationMode}
    (h : (v.validateConstraintCoverage (some flow) terms windows mode).notes = []) :
    Covered v terms windows mode flow := by
  simp only [validateConstraintCoverage, Option.getD_some, notes_bind, List.append_eq_nil_iff, forM_clean] at h
  obtain ⟨hrep, htime, -, hshape, hmissing, hintro, hwindows⟩ := h
  obtain ⟨henforced, hintroduced, hcount, hsome⟩ := checkTimeShape_clean hwindows
  have hfield : ∀ c ∈ flow.memberConstraints, ∃ values, flow.memberPredicates c.fieldId = [values] ∧
      (v.membersByField terms c.fieldId ≠ [] → ∀ id, id ∈ values ↔ id ∈ v.membersByField terms c.fieldId) := by
    intro c hc
    refine checkMemberShape_clean (hshape c.fieldId ?_)
    rw [(Kahn.sorted_perm _).mem_iff, List.mem_dedup]
    exact List.mem_map.mpr ⟨c, hc, rfl⟩
  have hvalues : ∀ c ∈ flow.memberConstraints, ∀ values, flow.memberPredicates c.fieldId = [values] →
      c.values = values := by
    intro c hc values hv
    exact List.mem_singleton.mp (hv ▸ mem_memberPredicates hc)
  refine ⟨fun window hw => ?_, fun hne c hc => ?_, fun c hc => ?_, fun c hc hne => ?_, fun id hid => ?_,
    fun c hc id hid => ?_, fun window hw => ?_, fun c hc => ?_, hcount⟩
  · obtain ⟨i, hi⟩ := exists_mem_zipIdx hw
    simpa using hrep _ hi
  · simpa [hne] using htime c hc
  · obtain ⟨values, hv, -⟩ := hfield c hc
    rw [hv, hvalues c hc values hv]
  · obtain ⟨values, hv, hex⟩ := hfield c hc
    rw [hvalues c hc values hv]
    exact hex hne
  · by_contra hn
    have hin : id ∈ sortedDifference (expectedMembers terms) flow.enforcedMembers := by
      refine mem_sortedDifference.mpr ⟨hid, fun he => hn ?_⟩
      obtain ⟨c, hc, hv⟩ := List.mem_flatMap.mp he
      exact ⟨c, (List.mem_filter.mp hc).1, (List.mem_filter.mp hc).2, hv⟩
    simpa using hmissing id hin
  · by_contra hn
    have hin : id ∈ sortedDifference flow.introducedMembers (expectedMembers terms) :=
      mem_sortedDifference.mpr ⟨List.mem_flatMap.mpr ⟨c, hc, hid⟩, hn⟩
    simpa using hintro id hin
  · obtain ⟨c, hc, hcw⟩ := List.mem_filterMap.mp (henforced window hw)
    have hc := List.mem_filter.mp hc
    exact ⟨c, hc.1, (Bool.and_eq_true_iff.mp hc.2).1, hcw⟩
  · obtain ⟨window, hw⟩ := Option.isSome_iff_exists.mp (hsome c hc)
    exact ⟨window, hintroduced window (List.mem_filterMap.mpr ⟨c, hc, hw⟩), hw⟩

/-! ## Members of the constraints -/

/-- Every member a constraint names belongs to the field it constrains. -/
def MembersOwned (v : SQGValidator) (flow : Flow) : Prop :=
  ∀ c ∈ flow.memberConstraints, ∀ id ∈ c.values, ∃ member, v.registry.member? id = some (c.fieldId, member)

theorem mem_membersOf {value : PredicateValue} {id : String} :
    id ∈ v.membersOf value ↔ .text id ∈ scalarsOf value ∧ (v.registry.member? id).isSome := by
  unfold membersOf
  rw [List.mem_filterMap]
  constructor
  · intro h
    obtain ⟨x, hx, he⟩ := h
    cases x with
    | text t =>
      simp only [Option.ite_none_right_eq_some, Option.some.injEq] at he
      obtain ⟨hm, rfl⟩ := he
      exact ⟨hx, hm⟩
    | _ => simp at he
  · intro h
    exact ⟨.text id, h.1, by simp [h.2]⟩

theorem PredicateValid.isMember {predicate : Predicate} {column : Column} (hp : PredicateValid v predicate column)
    {fieldId : String} (hd : column.memberDomainFieldId = some fieldId) :
    ∀ value ∈ scalarsOf predicate.value, IsMember v fieldId value := by
  rcases hp.member fieldId hd with ⟨-, x, hx, hm⟩ | ⟨-, xs, hxs, -, hm⟩
  · rw [hx]
    intro value hv
    exact List.mem_singleton.mp hv ▸ hm
  · rw [hxs]
    exact hm

/-- The member constraints a filter adds. -/
theorem mem_filteredFlow_members {predicate : Predicate} {source : Flow} {column : Column}
    (hc : source.column? predicate.column = some column) {c : MemberConstraint} :
    c ∈ (v.filteredFlow predicate source).memberConstraints ↔ c ∈ source.memberConstraints ∨
      ∃ fieldId, column.memberDomainFieldId = some fieldId ∧
        (predicate.operator = .eq ∨ predicate.operator = .isIn) ∧
        c = ⟨fieldId, v.membersOf predicate.value, column.constraintEligible⟩ := by
  simp only [filteredFlow, hc, List.mem_append]
  refine or_congr_right ?_
  cases column.memberDomainFieldId with
  | none => simp
  | some fieldId => by_cases ho : predicate.operator = .eq ∨ predicate.operator = .isIn <;> simp [ho]

theorem mem_filteredFlow_times {predicate : Predicate} {source : Flow} {column : Column}
    (hc : source.column? predicate.column = some column) {c : TimeConstraint} :
    c ∈ (v.filteredFlow predicate source).timeConstraints ↔ c ∈ source.timeConstraints ∨
      ∃ fieldId, column.timeDomainFieldId = some fieldId ∧
        c = ⟨fieldId, if predicate.operator = .between then v.windowOf predicate.value else none,
          column.constraintEligible⟩ := by
  simp only [filteredFlow, hc, List.mem_append]
  refine or_congr_right ?_
  cases column.timeDomainFieldId <;> simp

theorem NodeFlow.membersOwned {parameters : NodeParameters} {inputs : List Flow} {flow : Flow}
    (h : NodeFlow v parameters inputs flow) (hin : ∀ source ∈ inputs, MembersOwned v source) : MembersOwned v flow := by
  have same : ∀ {source : Flow}, SameConstraints source flow → MembersOwned v source → MembersOwned v flow := by
    intro source hs ho
    unfold MembersOwned
    rw [hs.1]
    exact ho
  cases h with
  | select _ hm _ =>
    unfold MembersOwned
    rw [hm]
    intro c hc
    cases hc
  | filter hc hp =>
    intro c hmem id hid
    rcases (mem_filteredFlow_members hc).mp hmem with hmem | ⟨fieldId, hd, -, rfl⟩
    · exact hin _ (by simp) c hmem id hid
    · obtain ⟨id', member, hx, hm⟩ := hp.isMember hd _ (mem_membersOf.mp hid).1
      cases hx
      exact ⟨member, hm⟩
  | aggregate _ hs => exact same hs (hin _ (by simp))
  | pivot _ hs => exact same hs (hin _ (by simp))
  | derive _ _ hs => exact same hs (hin _ (by simp))
  | project _ _ hs => exact same hs (hin _ (by simp))
  | sort _ hs => exact same hs (hin _ (by simp))
  | join _ _ hm _ =>
    unfold MembersOwned
    rw [hm]
    intro c hc id hid
    rcases List.mem_append.mp hc with hc | hc
    · exact hin _ (by simp) c hc id hid
    · obtain ⟨d, hd, rfl⟩ := List.mem_map.mp hc
      exact hin _ (by simp) d hd id hid

/-- An invariant of single flows: what each node's flow has when its inputs have it. -/
theorem flow_invariant {selected : List String} {nodes : List SQGNode} (h : (v.flowsOf selected nodes).notes = [])
    (hnodes : ∀ node ∈ nodes, node.operator = node.parameters.kind ∧ node.dependencies.length = node.operator.arity)
    {Q : Flow → Prop}
    (hstep : ∀ parameters inputs flow, NodeFlow v parameters inputs flow → (∀ source ∈ inputs, Q source) → Q flow) :
    ∀ id flow, (v.flowsOf selected nodes).value.lookup id = some flow → Q flow := by
  refine flowsOf_clean (P := fun _ flows => ∀ id flow, flows.lookup id = some flow → Q flow) h hnodes
    (fun _ _ h => by cases h) fun done node rest flows inputs flow _ hp hm hn id found hl => ?_
  by_cases hid : id = node.id
  · subst hid
    simp only [List.lookup_cons, beq_self_eq_true, Option.some.injEq] at hl
    refine hl ▸ hstep _ _ _ hn fun source hs => ?_
    obtain ⟨d, -, hd⟩ := mem_of_mapM_lookup hm hs
    exact hp d source hd
  · rw [List.lookup_cons, beq_false_of_ne hid] at hl
    exact hp id found hl

theorem Accepted.membersOwned (h : Accepted v sqg context terms windows mode flow) : MembersOwned v flow :=
  flow_invariant h.flows h.shapes (fun _ _ _ hn hin => hn.membersOwned hin) _ _ h.output

/-- A resolved member is in a constraint on its own field, which has the field's resolved
    members exactly and is enforced. -/
theorem Covered.enforcing {terms : List ResolvedTerm} {windows : List TimeWindow} {mode : Option CompilationMode}
    {flow : Flow} (hc : Covered v terms windows mode flow) (ho : MembersOwned v flow) {fieldId : String}
    (hne : v.membersByField terms fieldId ≠ []) :
    ∃ c ∈ flow.memberConstraints, c.fieldId = fieldId ∧ c.sourceEnforcing = true ∧
      ∀ id, id ∈ c.values ↔ id ∈ v.membersByField terms fieldId := by
  obtain ⟨id, hid⟩ := List.exists_mem_of_ne_nil _ hne
  have hid' := List.mem_filter.mp hid
  obtain ⟨c, hmem, hs, hv⟩ := hc.enforced id hid'.1
  obtain ⟨member, hm⟩ := ho c hmem id hv
  have hf : c.fieldId = fieldId := by simpa [hm] using hid'.2
  exact ⟨c, hmem, hf, hs, hf ▸ hc.exact c hmem (hf ▸ hne)⟩

/-! ## Constraints reach the output -/

/-- Every predicate on the way to `source` is one on the way to `flow`. -/
structure Carried (source flow : Flow) : Prop where
  members : ∀ c ∈ source.memberConstraints, ∃ d ∈ flow.memberConstraints, d.fieldId = c.fieldId ∧ d.values = c.values
  times : ∀ c ∈ source.timeConstraints, ∃ d ∈ flow.timeConstraints, d.fieldId = c.fieldId ∧ d.window = c.window

theorem Carried.refl (flow : Flow) : Carried flow flow :=
  ⟨fun c hc => ⟨c, hc, rfl, rfl⟩, fun c hc => ⟨c, hc, rfl, rfl⟩⟩

theorem Carried.trans {a b c : Flow} (h : Carried a b) (h' : Carried b c) : Carried a c := by
  constructor
  · intro x hx
    obtain ⟨y, hy, hf, hv⟩ := h.members x hx
    obtain ⟨z, hz, hf', hv'⟩ := h'.members y hy
    exact ⟨z, hz, hf'.trans hf, hv'.trans hv⟩
  · intro x hx
    obtain ⟨y, hy, hf, hv⟩ := h.times x hx
    obtain ⟨z, hz, hf', hv'⟩ := h'.times y hy
    exact ⟨z, hz, hf'.trans hf, hv'.trans hv⟩

theorem NodeFlow.carried {parameters : NodeParameters} {inputs : List Flow} {found : Flow}
    (h : NodeFlow v parameters inputs found) : ∀ source ∈ inputs, Carried source found := by
  have same : ∀ {source : Flow}, SameConstraints source found → ∀ input ∈ [source], Carried input found := by
    intro source hs input hi
    rw [List.mem_singleton.mp hi]
    exact ⟨fun c hc => ⟨c, hs.1 ▸ hc, rfl, rfl⟩, fun c hc => ⟨c, hs.2 ▸ hc, rfl, rfl⟩⟩
  cases h with
  | select =>
    intro source hs
    cases hs
  | filter hc _ =>
    intro source hs
    rw [List.mem_singleton.mp hs]
    exact ⟨fun c hm => ⟨c, (mem_filteredFlow_members hc).mpr (.inl hm), rfl, rfl⟩,
      fun c hm => ⟨c, (mem_filteredFlow_times hc).mpr (.inl hm), rfl, rfl⟩⟩
  | aggregate _ hs => exact same hs
  | pivot _ hs => exact same hs
  | derive _ _ hs => exact same hs
  | project _ _ hs => exact same hs
  | sort _ hs => exact same hs
  | @join _ _ _ joinType left right _ _ _ hm ht =>
    intro source hs
    rcases List.mem_cons.mp hs with rfl | hs
    · exact ⟨fun c hc => ⟨c, hm ▸ List.mem_append_left _ hc, rfl, rfl⟩,
        fun c hc => ⟨c, ht ▸ List.mem_append_left _ hc, rfl, rfl⟩⟩
    · rw [List.mem_singleton.mp hs]
      exact ⟨fun c hc => ⟨joinedMember joinType c, hm ▸ List.mem_append_right _ (List.mem_map_of_mem hc), rfl, rfl⟩,
        fun c hc => ⟨joinedTime joinType c, ht ▸ List.mem_append_right _ (List.mem_map_of_mem hc), rfl, rfl⟩⟩

theorem mem_of_dependency {id d : String} (hd : d ∈ sqg.dependenciesOf id) :
    ∃ node ∈ sqg.nodes, node.id = id ∧ d ∈ node.dependencies := by
  unfold SQG.dependenciesOf at hd
  cases hf : sqg.node? id with
  | none => simp [hf] at hd
  | some node =>
    simp only [hf, Option.map_some, Option.getD_some] at hd
    exact ⟨node, List.mem_of_find?_eq_some hf, by simpa using List.find?_some hf, hd⟩

theorem Accepted.reaches (h : Accepted v sqg context terms windows mode flow) {node : SQGNode}
    (hn : node ∈ sqg.nodes) : Worklist.Reaches sqg.dependenciesOf sqg.outputNodeId node.id := by
  have hnext : ∀ id ∈ sqg.nodes.map (·.id), ∀ d ∈ sqg.dependenciesOf id, d ∈ sqg.nodes.map (·.id) := by
    intro id _ d hd
    obtain ⟨m, hm, -, hdm⟩ := mem_of_dependency hd
    obtain ⟨i, hi⟩ := exists_mem_zipIdx hm
    obtain ⟨j, hj, -⟩ := h.earlier _ hi d hdm
    obtain ⟨hlt, hid, -⟩ := List.findIdx?_eq_some_iff_getElem.mp hj
    exact List.mem_map.mpr ⟨sqg.nodes[j], List.getElem_mem hlt, by simpa using hid⟩
  have hout : sqg.outputNodeId ∈ sqg.nodes.map (·.id) := by
    by_contra hno
    have hne := h.needed node hn
    rcases Worklist.walk_sound hne with hin | ⟨p, hp, hr⟩
    · cases hin
    · rw [List.mem_singleton.mp hp] at hr
      rcases hr.cases_head with he | ⟨d, hd, -⟩
      · exact hno (he ▸ List.mem_map.mpr ⟨node, hn, rfl⟩)
      · obtain ⟨m, hm, he, -⟩ := mem_of_dependency hd
        exact hno (he ▸ List.mem_map.mpr ⟨m, hm, rfl⟩)
  exact (Worklist.mem_reach h.nodup hnext hout).mp (h.needed node hn)

/-- Every predicate of the graph is on the way to the output. -/
theorem Accepted.carried (h : Accepted v sqg context terms windows mode flow) {node : SQGNode} (hn : node ∈ sqg.nodes)
    {found : Flow} (hf : (v.flowsOf context.selected sqg.nodes).value.lookup node.id = some found) :
    Carried found flow := by
  have hall : ∀ id, Worklist.Reaches sqg.dependenciesOf sqg.outputNodeId id →
      ∀ found, (v.flowsOf context.selected sqg.nodes).value.lookup id = some found → Carried found flow := by
    intro id hr
    induction hr with
    | refl =>
      intro found hf
      rw [h.output] at hf
      exact Option.some.inj hf ▸ Carried.refl flow
    | tail _ hd ih =>
      intro found hf
      obtain ⟨m, hm, rfl, hdm⟩ := mem_of_dependency hd
      obtain ⟨inputs, parent, hin, hp, hnf⟩ := h.flow_of_node hm
      obtain ⟨x, hx, hlook⟩ := exists_mapM_lookup hin hdm
      obtain rfl : found = x := Option.some.inj (hf.symm.trans hlook)
      exact (hnf.carried _ hx).trans (ih parent hp)
  exact hall node.id (h.reaches hn) found hf

end SQGValidator

end DataNexus.Semantic
