/-
  DataNexus.Runtime.PlannerSpec — what each part of the planner returns.

  One lemma per function of `Planner`: what the ordered, checked and bound nodes are
  (`prepare_spec`), what the physical node of a logical node looks like
  (`physicalNode_cases`), which ids the planning loop has mapped (`Mapped`), and how the
  planned nodes relate to the physical ones (`layout_spec`). Later modules argue from
  these and do not open the definitions.
-/

import DataNexus.Runtime.Planner

namespace DataNexus.Runtime

open Lib

theorem physicalId_injective : Function.Injective physicalId := by
  intro a b h
  simpa [physicalId] using h

/-! ## Lists keyed by id -/

section Keyed

variable {α : Type} (key : α → String)

theorem find?_key_of_mem {xs : List α} (hnd : (xs.map key).Nodup) {x : α} (hx : x ∈ xs) :
    xs.find? (key · == key x) = some x := by
  induction xs with
  | nil => cases hx
  | cons y xs ih =>
    rw [List.map_cons, List.nodup_cons] at hnd
    rcases List.mem_cons.mp hx with rfl | hx
    · simp
    · have hne : key y ≠ key x := fun e => hnd.1 (e ▸ List.mem_map.mpr ⟨x, hx, rfl⟩)
      rw [List.find?_cons_of_neg (by simpa using hne)]
      exact ih hnd.2 hx

theorem key_of_find? {xs : List α} {k : String} {x : α} (h : xs.find? (key · == k) = some x) :
    x ∈ xs ∧ key x = k :=
  ⟨List.mem_of_find?_eq_some h, by simpa using List.find?_some h⟩

theorem find?_key_isSome {xs : List α} {k : String} (h : k ∈ xs.map key) : ∃ x, xs.find? (key · == k) = some x := by
  obtain ⟨x, hx, rfl⟩ := List.mem_map.mp h
  exact Option.isSome_iff_exists.mp (List.find?_isSome.mpr ⟨x, hx, by simp⟩)

/-- Looking up every key of a list of keys recovers that list. -/
theorem map_filterMap_find? {xs : List α} {ks : List String} (h : ks ⊆ xs.map key) :
    (ks.filterMap fun k => xs.find? (key · == k)).map key = ks := by
  induction ks with
  | nil => rfl
  | cons k ks ih =>
    obtain ⟨x, hx⟩ := find?_key_isSome key (h (List.mem_cons_self ..))
    simp only [List.filterMap_cons, hx, List.map_cons, (key_of_find? key hx).2,
      ih fun j hj => h (List.mem_cons_of_mem _ hj)]

theorem filterMap_find?_perm {xs : List α} {ks : List String} (hnd : (xs.map key).Nodup)
    (h : ks.Perm (xs.map key)) : (ks.filterMap fun k => xs.find? (key · == k)).Perm xs := by
  refine (h.filterMap _).trans (.of_eq ?_)
  have : ∀ ys ⊆ xs, (ys.map key).filterMap (fun k => xs.find? (key · == k)) = ys := by
    intro ys hys
    induction ys with
    | nil => rfl
    | cons y ys ih =>
      simp only [List.map_cons, List.filterMap_cons, find?_key_of_mem key hnd (hys (List.mem_cons_self ..)),
        ih fun j hj => hys (List.mem_cons_of_mem _ hj)]
  exact this xs fun _ h => h

end Keyed

theorem lookup_map_pair {α β : Type} [DecidableEq α] (f : α → β) (ks : List α) (k : α) :
    (ks.map fun k => (k, f k)).lookup k = if k ∈ ks then some (f k) else none := by
  induction ks with
  | nil => rfl
  | cons j ks ih =>
    rw [List.map_cons, List.lookup]
    by_cases e : k = j
    · simp [e]
    · simp [beq_false_of_ne e, e, ih]

/-! ## Ordering, checking and binding -/

/-- The nodes are ordered: a permutation in which dependencies come first. -/
structure Ordered (nodes ordered : List LogicalNode) : Prop where
  nodup : (nodes.map (·.id)).Nodup
  perm : ordered.Perm nodes
  closed : ∀ pre node post, ordered = pre ++ node :: post → node.dependencies ⊆ pre.map (·.id)

theorem topologicalOrder_spec {nodes ordered : List LogicalNode} (h : topologicalOrder nodes = .ok ordered) :
    Ordered nodes ordered := by
  simp only [topologicalOrder, bind_eq_ok, refuseIf_eq_ok, pure_eq_ok] at h
  obtain ⟨_, hdup, _, hunknown, _, hlen, rfl⟩ := h
  have hnd := dedup_length_bne.mp hdup
  have hkeys : Kahn.keys (nodes.map fun node => (node.id, node.dependencies)) = nodes.map (·.id) := by
    simp [Kahn.keys, Function.comp_def]
  have hw : Kahn.WellFormed (nodes.map fun node => (node.id, node.dependencies)) := by
    refine ⟨by rwa [hkeys], fun n hn d hd => ?_⟩
    obtain ⟨node, hnode, rfl⟩ := List.mem_map.mp hn
    rw [hkeys]
    by_contra hout
    have hmem : d ∈ Kahn.sorted ((nodes.flatMap (·.dependencies)).filter (· ∉ nodes.map (·.id))).dedup := by
      simp only [Kahn.mem_sorted, List.mem_dedup, List.mem_filter, List.mem_flatMap, decide_eq_true_eq]
      exact ⟨⟨node, hnode, hd⟩, hout⟩
    have hnil : Kahn.sorted ((nodes.flatMap (·.dependencies)).filter (· ∉ nodes.map (·.id))).dedup = [] := by
      simpa only [Bool.not_eq_false', List.isEmpty_iff] using hunknown
    rw [hnil] at hmem
    cases hmem
  have hperm : (Kahn.run (nodes.map fun node => (node.id, node.dependencies))).Perm (nodes.map (·.id)) :=
    hkeys ▸ Kahn.run_perm hw (by simpa using hlen)
  refine ⟨hnd, filterMap_find?_perm (fun n : LogicalNode => n.id) hnd hperm, fun pre node post e => ?_⟩
  have hmap := map_filterMap_find? (fun n : LogicalNode => n.id) hperm.subset
  rw [e, List.map_append, List.map_cons] at hmap
  have hmem : node ∈ nodes :=
    (filterMap_find?_perm (fun n : LogicalNode => n.id) hnd hperm).subset (e ▸ List.mem_append_right _ (List.mem_cons_self ..))
  exact Kahn.run_closed hw (n := (node.id, node.dependencies)) hmap.symm (List.mem_map.mpr ⟨node, hmem, rfl⟩)

namespace CapabilityPlanner

variable {lib : ScalarParsers} {planner : CapabilityPlanner}

theorem bindNode_fst {node : LogicalNode} {item : LogicalNode × List BoundColumn}
    (h : planner.bindNode node = .ok item) : item.1 = node := by
  simp only [bindNode, bind_eq_ok, pure_eq_ok] at h
  obtain ⟨_, -, _, -, rfl⟩ := h
  rfl

/-- The bound nodes: the graph's nodes in order, each checked and bound. -/
structure Prepared (planner : CapabilityPlanner) (graph : ValidatedLogicalGraph lib)
    (bound : List (LogicalNode × List BoundColumn)) : Prop where
  ordered : Ordered graph.nodes (bound.map (·.1))
  checked : ∀ item ∈ bound, checkNode lib graph.version item.1 = .ok ()
  bound : ∀ item ∈ bound, planner.bindNode item.1 = .ok item

theorem prepare_spec {graph : ValidatedLogicalGraph lib} {bound : List (LogicalNode × List BoundColumn)}
    (h : planner.prepare lib graph = .ok bound) : Prepared planner graph bound := by
  simp only [prepare, bind_eq_ok, forM_eq_ok, mapM_eq_ok] at h
  obtain ⟨ordered, ho, _, hc, hb⟩ := h
  have hmap : bound.map (·.1) = ordered := by
    clear ho hc
    induction hb with
    | nil => rfl
    | cons hx _ ih => rw [List.map_cons, ih, bindNode_fst hx]
  have hbound : ∀ item ∈ bound, planner.bindNode item.1 = .ok item := by
    clear ho hc hmap
    induction hb with
    | nil => simp
    | cons hx _ ih =>
      intro item hi
      rcases List.mem_cons.mp hi with rfl | hi
      · rwa [bindNode_fst hx]
      · exact ih item hi
  exact ⟨hmap ▸ topologicalOrder_spec ho, fun item hi => hc _ (hmap ▸ List.mem_map.mpr ⟨item, hi, rfl⟩), hbound⟩

/-! ## One node -/

/-- The dependencies' physical ids, each once, in order. -/
def dependencyIds (dependencies : List String) : List String :=
  (dependencies.map physicalId).reverse.dedup.reverse

theorem mem_dependencyIds {dependencies : List String} {id : String} :
    id ∈ dependencyIds dependencies ↔ ∃ d ∈ dependencies, physicalId d = id := by
  simp [dependencyIds]

theorem dependencyIds_of_nodup {dependencies : List String} (h : dependencies.Nodup) :
    dependencyIds dependencies = dependencies.map physicalId := by
  have : ((dependencies.map physicalId).reverse).Nodup := List.nodup_reverse.mpr (h.map physicalId_injective)
  rw [dependencyIds, this.dedup, List.reverse_reverse]

theorem dependencyIds_eq_nil {dependencies : List String} : dependencyIds dependencies = [] ↔ dependencies = [] := by
  simp [dependencyIds, List.dedup_eq_nil]

theorem constructed_eq_ok {α : Type} {valid : Except String Unit} {a b : α} :
    constructed valid a = .ok b ↔ valid = .ok () ∧ a = b := by
  unfold constructed
  split <;> simp_all

/-- A physical node is a fragment on the node's source, opened or fused, or a local operator. -/
theorem physicalNode_cases {st : PlanState} {logical : LogicalNode} {bound : List BoundColumn} {node : PhysicalNode}
    (h : planner.physicalNode st logical bound = .ok node) :
    ∃ operation ids, applyBindings logical.operation bound = .ok operation ∧
      mappedDependencies st.mapping logical = .ok ids ∧
      ((∃ source, planner.source logical = some source ∧
          planner.pushdown logical operation ids (planner.fusible st.physical logical ids) = true ∧
          node = fragmentNode logical bound operation ids source (planner.fusible st.physical logical ids)) ∨
        (ids ≠ [] ∧ planner.pushdown logical operation ids (planner.fusible st.physical logical ids) = false ∧
          node = operatorNode logical operation ids)) := by
  simp only [physicalNode, bind_eq_ok] at h
  obtain ⟨operation, ho, ids, hi, h⟩ := h
  refine ⟨operation, ids, ho, hi, ?_⟩
  split at h
  · rename_i hp
    split at h
    · cases h
    · rename_i source hs
      exact .inl ⟨source, hs, hp, (constructed_eq_ok.mp h).2.symm⟩
  · rename_i hp
    simp only [bind_eq_ok, refuseIf_eq_ok, constructed_eq_ok] at h
    obtain ⟨_, hne, -, rfl⟩ := h
    exact .inr ⟨by simpa [List.isEmpty_iff] using hne, by simpa using hp, rfl⟩

theorem physicalNode_id {st : PlanState} {logical : LogicalNode} {bound : List BoundColumn} {node : PhysicalNode}
    (h : planner.physicalNode st logical bound = .ok node) : node.id = physicalId logical.id := by
  obtain ⟨_, _, -, -, ⟨_, -, -, rfl⟩ | ⟨-, -, rfl⟩⟩ := physicalNode_cases h <;> rfl

theorem fusible_eq_some {physical : List PhysicalNode} {logical : LogicalNode} {ids : List String}
    {node : PhysicalNode} {fragment : SourceFragment} :
    planner.fusible physical logical ids = some (node, fragment) ↔
      ∃ dependency source, ids = [dependency] ∧ findNode physical dependency = some node ∧
        node.sourceFragment = some fragment ∧ planner.source logical = some source ∧
        fragment.source.aliasName = source.aliasName := by
  unfold fusible
  split
  · simp only [Option.bind_eq_some_iff]
    constructor
    · rintro ⟨n, hn, f, hf, s, hs, h⟩
      split at h
      · rename_i ha
        obtain ⟨rfl, rfl⟩ := by simpa using h
        exact ⟨_, s, rfl, hn, hf, hs, ha⟩
      · cases h
    · rintro ⟨d, s, e, hn, hf, hs, ha⟩
      obtain rfl := List.singleton_inj.mp e
      exact ⟨node, hn, fragment, hf, s, hs, by simp [ha]⟩
  · rename_i hne
    simp only [reduceCtorEq, false_iff, not_exists]
    rintro d s ⟨rfl, -⟩
    exact hne d rfl

/-! ## The planning loop -/

/-- The ids the loop has given out after the nodes `done`. -/
structure Mapped (done : List (LogicalNode × List BoundColumn)) (st : PlanState) : Prop where
  mapping : st.mapping = (done.map (·.1.id)).map fun id => (id, physicalId id)
  ids : st.physical.map (·.id) = (done.map (·.1.id)).map physicalId

theorem planNode_eq_ok {st st' : PlanState} {item : LogicalNode × List BoundColumn}
    (h : planner.planNode st item = .ok st') : ∃ node, planner.physicalNode st item.1 item.2 = .ok node ∧
      st' = ⟨st.physical ++ [node], st.mapping ++ [(item.1.id, node.id)]⟩ := by
  simp only [planNode, bind_eq_ok, pure_eq_ok] at h
  obtain ⟨node, hn, rfl⟩ := h
  exact ⟨node, hn, rfl⟩

theorem planNode_mapped {done : List (LogicalNode × List BoundColumn)} {st st' : PlanState}
    {item : LogicalNode × List BoundColumn} (hm : Mapped done st) (h : planner.planNode st item = .ok st') :
    Mapped (done ++ [item]) st' := by
  obtain ⟨node, hn, rfl⟩ := planNode_eq_ok h
  exact ⟨by simp [hm.mapping, physicalNode_id hn], by simp [hm.ids, physicalNode_id hn]⟩

theorem mappedDependencies_of_mapped {done : List (LogicalNode × List BoundColumn)} {st : PlanState}
    (hm : Mapped done st) {logical : LogicalNode} (hd : logical.dependencies ⊆ done.map (·.1.id)) :
    mappedDependencies st.mapping logical = .ok (dependencyIds logical.dependencies) := by
  simp only [mappedDependencies, bind_eq_ok, mapM_eq_ok, pure_eq_ok]
  refine ⟨logical.dependencies.map physicalId, ?_, rfl⟩
  rw [List.forall₂_map_right_iff, List.forall₂_same]
  intro d hdd
  rw [hm.mapping, lookup_map_pair, if_pos (hd hdd)]

theorem findNode_isSome {physical : List PhysicalNode} {id : String} (h : id ∈ physical.map (·.id)) :
    ∃ node, findNode physical id = some node :=
  find?_key_isSome (fun n : PhysicalNode => n.id) h

/-! ## The planned nodes -/

/-- The planned nodes are the physical nodes the output reaches, with their waves. -/
structure Planned (physical : List PhysicalNode) (outputId : String) (planned : List PhysicalNode) : Prop where
  nodup : (planned.map (·.id)).Nodup
  mem : ∀ id, id ∈ planned.map (·.id) ↔ Worklist.Reaches (dependenciesOf physical) outputId id
  same : ∀ node ∈ planned, ∃ origin ∈ physical, node = { origin with wave := node.wave }
  waves : ∀ node ∈ planned, ∀ d ∈ node.dependencies, ∃ below ∈ planned, below.id = d ∧ below.wave < node.wave

theorem dependenciesOf_eq {physical : List PhysicalNode} (hnd : (physical.map (·.id)).Nodup) {node : PhysicalNode}
    (hn : node ∈ physical) : dependenciesOf physical node.id = node.dependencies := by
  rw [dependenciesOf, findNode, find?_key_of_mem (fun n : PhysicalNode => n.id) hnd hn]
  rfl

theorem dependenciesOf_filter {physical : List PhysicalNode} (hnd : (physical.map (·.id)).Nodup)
    (p : PhysicalNode → Bool) {node : PhysicalNode} (hn : node ∈ physical.filter p) :
    dependenciesOf (physical.filter p) node.id = dependenciesOf physical node.id := by
  rw [dependenciesOf_eq ((List.Sublist.map _ List.filter_sublist).nodup hnd) hn,
    dependenciesOf_eq hnd (List.mem_filter.mp hn).1]

theorem assignWaves_eq_ok {nodes planned : List PhysicalNode} (hnd : (nodes.map (·.id)).Nodup)
    (h : assignWaves nodes = .ok planned) :
    (planned.map (·.id)).Perm (nodes.map (·.id)) ∧
      (∀ node ∈ planned, ∃ origin ∈ nodes, node = { origin with wave := node.wave }) ∧
      ∀ node ∈ planned, ∀ d ∈ node.dependencies, ∃ below ∈ planned, below.id = d ∧ below.wave < node.wave := by
  unfold assignWaves at h
  split at h
  · cases h
  rename_i waves hw
  obtain rfl := Except.ok.inj h
  obtain ⟨hl, hperm⟩ := Layers.assign_spec hnd hw
  have hfound : ∀ k ∈ waves.map (·.1), ∃ node, findNode nodes k = some node := fun k hk =>
    findNode_isSome (hperm.subset hk)
  refine ⟨?_, ?_, ?_⟩
  · refine .trans (.of_eq ?_) hperm
    clear hl hperm hw h
    induction waves with
    | nil => rfl
    | cons kw waves ih =>
      obtain ⟨node, hn⟩ := hfound kw.1 (by simp)
      rw [List.filterMap_cons]
      simp only [hn, Option.map_some, List.map_cons, (key_of_find? (fun n : PhysicalNode => n.id) hn).2]
      exact congrArg (kw.1 :: ·) (ih fun k hk => hfound k (by simp [hk]))
  · intro node hn
    obtain ⟨⟨id, wave⟩, -, h⟩ := List.mem_filterMap.mp hn
    obtain ⟨origin, hf, rfl⟩ := Option.map_eq_some_iff.mp h
    exact ⟨origin, List.mem_of_find?_eq_some hf, rfl⟩
  · intro node hn d hd
    obtain ⟨⟨id, wave⟩, hm, h⟩ := List.mem_filterMap.mp hn
    obtain ⟨origin, hf, rfl⟩ := Option.map_eq_some_iff.mp h
    obtain ⟨ho, rfl⟩ := key_of_find? (fun n : PhysicalNode => n.id) hf
    have hd' : d ∈ dependenciesOf nodes origin.id := by rwa [dependenciesOf_eq hnd ho]
    obtain ⟨v, hv⟩ := Option.isSome_iff_exists.mp (hl.known origin.id (List.mem_map.mpr ⟨_, hm, rfl⟩) d hd')
    have hmv := (Layers.lookup_eq_some hl.nodup).mp hv
    obtain ⟨below, hb⟩ := hfound d (List.mem_map.mpr ⟨_, hmv, rfl⟩)
    refine ⟨{ below with wave := v }, List.mem_filterMap.mpr ⟨(d, v), hmv, by simp [hb]⟩,
      (key_of_find? (fun n : PhysicalNode => n.id) hb).2, ?_⟩
    exact hl.lt ((Layers.lookup_eq_some hl.nodup).mpr hm) hd' hv

/-- Every dependency of a physical node is a physical node. -/
def Closed (physical : List PhysicalNode) : Prop :=
  ∀ node ∈ physical, ∀ d ∈ node.dependencies, d ∈ physical.map (·.id)

theorem planned_of_assignWaves {physical planned : List PhysicalNode} {outputId : String}
    (hnd : (physical.map (·.id)).Nodup) (hc : Closed physical) (ho : outputId ∈ physical.map (·.id))
    (h : assignWaves (physical.filter (·.id ∈ reachable outputId physical)) = .ok planned) :
    Planned physical outputId planned := by
  have hsub : ((physical.filter (·.id ∈ reachable outputId physical)).map (·.id)).Nodup :=
    (List.Sublist.map _ List.filter_sublist).nodup hnd
  obtain ⟨hperm, hsame, hwaves⟩ := assignWaves_eq_ok hsub h
  have hnext : ∀ k ∈ physical.map (·.id), ∀ d ∈ dependenciesOf physical k, d ∈ physical.map (·.id) := by
    intro k hk d hd
    obtain ⟨node, hn, rfl⟩ := List.mem_map.mp hk
    exact hc node hn d (dependenciesOf_eq hnd hn ▸ hd)
  refine ⟨hperm.nodup_iff.mpr hsub, fun id => ?_, fun node hn => ?_, hwaves⟩
  · rw [hperm.mem_iff, ← Worklist.mem_reach hnd hnext ho]
    simp only [List.mem_map, List.mem_filter, decide_eq_true_eq]
    constructor
    · rintro ⟨node, ⟨-, hr⟩, rfl⟩
      exact hr
    · intro hr
      have hm := ((Worklist.mem_reach hnd hnext ho).mp hr).mem hnext ho
      obtain ⟨node, hn, rfl⟩ := List.mem_map.mp hm
      exact ⟨node, ⟨hn, hr⟩, rfl⟩
  · obtain ⟨origin, ho, e⟩ := hsame node hn
    exact ⟨origin, (List.mem_filter.mp ho).1, e⟩

theorem layout_eq_ok {outputNodeId outputId : String} {bound : List (LogicalNode × List BoundColumn)}
    {planned : List PhysicalNode} (h : planner.layout outputNodeId bound = .ok (planned, outputId)) :
    ∃ st, bound.foldlM planner.planNode ⟨[], []⟩ = .ok st ∧ st.mapping.lookup outputNodeId = some outputId ∧
      assignWaves (st.physical.filter (·.id ∈ reachable outputId st.physical)) = .ok planned := by
  simp only [layout, bind_eq_ok] at h
  obtain ⟨st, hst, h⟩ := h
  split at h
  · cases h
  · rename_i id hid
    simp only [bind_eq_ok, pure_eq_ok] at h
    obtain ⟨nodes, hn, e⟩ := h
    obtain ⟨rfl, rfl⟩ := Prod.mk.inj e
    exact ⟨st, hst, hid, hn⟩

theorem plan_eq_ok {graph : ValidatedLogicalGraph lib} {result : PhysicalPlan} (h : planner.plan lib graph = .ok result) :
    ∃ bound planned outputId, planner.prepare lib graph = .ok bound ∧
      planner.layout graph.outputNodeId bound = .ok (planned, outputId) ∧
      result = ⟨graph.version, physicalId graph.id, planned, outputId⟩ ∧ result.versionBoundary lib = .ok () := by
  simp only [plan, bind_eq_ok] at h
  obtain ⟨bound, hb, ⟨planned, outputId⟩, hl, h⟩ := h
  obtain ⟨hv, rfl⟩ := constructed_eq_ok.mp h
  exact ⟨bound, planned, outputId, hb, hl, rfl, hv⟩

end CapabilityPlanner

end DataNexus.Runtime
