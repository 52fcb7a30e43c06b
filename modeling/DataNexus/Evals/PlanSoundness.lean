/-
  DataNexus.Evals.PlanSoundness — the plans in which `validate_plan` finds nothing wrong.

  `WellFormedPlan` reads a JSON value as nodes and edges (`ReadsNode`) and says what a plan
  has to be (`Sound`), of names and sets alone.

  - `validatePlan_ok`: on every value but one kind the check returns, with no error exactly
    where the value is a well formed plan.
  - `validatePlan_raises`: the kind is a node without an id that depends on another one.
    The second loop calls it by a name that the tables do not have.
-/

import DataNexus.Evals.PlanGraph
import DataNexus.Lib.Outcome

namespace DataNexus.Evals

open Lib

/-! ## What a plan is -/

structure PlanNode where
  id : String
  operator : String
  dependsOn : List String
  inputs : List String
  outputs : List String

/-- A field, absent or a list, of non-empty strings. -/
structure ReadsTexts (node : Members) (fieldName : String) (values : List String) : Prop where
  list : listField node fieldName = some (values.map .str)
  texts : "" ∉ values

structure ReadsNode (node : Members) (n : PlanNode) : Prop where
  id : node.lookup "id" = some (.str n.id)
  idText : n.id ≠ ""
  operator : node.lookup "operator" = some (.str n.operator)
  operatorText : n.operator ≠ ""
  dependsOn : ReadsTexts node "depends_on" n.dependsOn
  inputs : ReadsTexts node "inputs" n.inputs
  outputs : ReadsTexts node "outputs" n.outputs

def edgeJson (edge : String × String) : Json := .arr [.str edge.1, .str edge.2]

/-- `k` depends on `d`. -/
def Depends (ns : List PlanNode) (d k : String) : Prop := ∃ n ∈ ns, n.id = k ∧ d ∈ n.dependsOn

structure Sound (ns : List PlanNode) (edges : List (String × String)) : Prop where
  ids : (ns.map (·.id)).Nodup
  distinct : edges.Nodup
  edges : ∀ d k, (d, k) ∈ edges ↔ Depends ns d k
  known : ∀ n ∈ ns, ∀ d ∈ n.dependsOn, d ∈ ns.map (·.id)
  once : ∀ n ∈ ns, n.dependsOn.Nodup
  acyclic : ∀ k, ¬ Relation.TransGen (Depends ns) k k
  connected : ∀ a ∈ ns.map (·.id), ∀ b ∈ ns.map (·.id),
    Relation.ReflTransGen (fun a b => Depends ns a b ∨ Depends ns b a) a b
  outputs : ∀ n ∈ ns, n.outputs ≠ [] ∧ n.outputs.Nodup
  inputs : ∀ n ∈ ns, n.dependsOn ≠ [] →
    n.inputs ≠ [] ∧ ∀ i ∈ n.inputs, ∃ m ∈ ns, m.id ∈ n.dependsOn ∧ i ∈ m.outputs

/-- The value is an object that says a sound plan. -/
def Says (plan : Json) (ns : List PlanNode) (edges : List (String × String)) : Prop :=
  ∃ members nodes, plan = .obj members ∧ listField members "operators" = some (ns.map (.str ·.operator)) ∧
    listField members "edges" = some (edges.map edgeJson) ∧ listField members "nodes" = some (nodes.map .obj) ∧
    List.Forall₂ ReadsNode nodes ns

/-- A sound plan, no node of which lists an input twice. -/
def WellFormedPlan (plan : Json) : Prop :=
  ∃ ns edges, Says plan ns edges ∧ Sound ns edges ∧ ∀ n ∈ ns, n.inputs.Nodup

/-! ## Nodes without an id -/

/-- The nodes that have no id. -/
def unnamed (nodes : List Json) : List Members := (validNodes nodes).filter fun node => (node.lookup "id").isNone

/-- The last node without an id depends on a node, and none goes by its makeshift name. -/
def UnnamedDepends (nodes : List Json) : Prop :=
  "<missing>" ∉ known nodes ∧
    ∃ node, (unnamed nodes).getLast? = some node ∧ ∃ d ∈ fieldValues node "depends_on", d ∈ known nodes

/-- A plan whose three lists are lists, with such a node. -/
def DependsUnnamed (plan : Json) : Prop :=
  ∃ members operators edges nodes, plan = .obj members ∧ listField members "operators" = some operators ∧
    listField members "edges" = some edges ∧ listField members "nodes" = some nodes ∧ UnnamedDepends nodes

/-! ## Texts -/

theorem text?_eq_some {json : Json} {s : String} : json.text? = some s ↔ json = .str s ∧ s ≠ "" := by
  cases json with
  | str t =>
    simp only [Json.text?, Json.str.injEq]
    by_cases h : t = ""
    · rw [if_pos h]
      constructor
      · intro hnone
        cases hnone
      · rintro ⟨rfl, hs⟩
        exact absurd h hs
    · rw [if_neg h]
      constructor
      · intro hsome
        obtain rfl := Option.some.inj hsome
        exact ⟨rfl, h⟩
      · rintro ⟨rfl, -⟩
        rfl
  | null | bool | num | arr | obj => simp [Json.text?]

theorem filterMap_text? {values : List String} (h : "" ∉ values) : (values.map Json.str).filterMap Json.text? = values := by
  induction values with
  | nil => rfl
  | cons value values ih =>
    have hvalue : (Json.str value).text? = some value := text?_eq_some.mpr ⟨rfl, fun he => h (by simp [he])⟩
    rw [List.map_cons, List.filterMap_cons_some hvalue, ih fun hm => h (by simp [hm])]

/-- A list whose texts are as many as its items. -/
theorem texts_of_length {xs : List Json} (h : (xs.filterMap Json.text?).length = xs.length) :
    xs = (xs.filterMap Json.text?).map .str ∧ "" ∉ xs.filterMap Json.text? := by
  induction xs with
  | nil => simp
  | cons x xs ih =>
    have hle : (xs.filterMap Json.text?).length ≤ xs.length := List.length_filterMap_le _ _
    cases hx : x.text? with
    | none =>
      rw [List.filterMap_cons_none hx, List.length_cons] at h
      omega
    | some s =>
      obtain ⟨rfl, hs⟩ := text?_eq_some.mp hx
      rw [List.filterMap_cons_some hx, List.length_cons, List.length_cons] at h
      obtain ⟨hrest, hempty⟩ := ih (by omega)
      rw [List.filterMap_cons_some hx, List.map_cons]
      refine ⟨by rw [← hrest], ?_⟩
      simp [hempty, Ne.symm hs]

theorem errorIf_eq_nil {condition : Bool} {message : String} : errorIf condition message = [] ↔ condition = false := by
  cases condition <;> simp [errorIf]

theorem same_str {x : Json} {s : String} : Json.same x (.str s) = true ↔ x = .str s := by
  cases x <;> simp [Json.same, Json.number?]

theorem sameAll_texts {xs ys : List Json} (h : ∀ y ∈ ys, y.text?.isSome = true) : Json.sameAll xs ys = true ↔ xs = ys := by
  induction ys generalizing xs with
  | nil => cases xs <;> simp [Json.sameAll]
  | cons y ys ih =>
    obtain ⟨s, hs⟩ := Option.isSome_iff_exists.mp (h y (by simp))
    obtain ⟨rfl, -⟩ := text?_eq_some.mp hs
    cases xs with
    | nil => simp [Json.sameAll]
    | cons x xs =>
      rw [Json.sameAll, Bool.and_eq_true, same_str, ih fun z hz => h z (by simp [hz]), List.cons.injEq]

/-! ## Fields, nodes and edges -/

variable {str : Json → String}

theorem fieldValues_reads {node : Members} {fieldName : String} {values : List String} (h : ReadsTexts node fieldName values) :
    fieldValues node fieldName = values := by
  rw [fieldValues, rawValues, h.list, Option.getD_some, filterMap_text? h.texts]

theorem fieldErrors_eq_nil {node : Members} {fieldName : String} :
    fieldErrors str node fieldName = [] ↔ ∃ values, ReadsTexts node fieldName values ∧ values.Nodup := by
  simp only [fieldErrors, List.append_eq_nil_iff, errorIf_eq_nil, dedup_length_bne]
  constructor
  · rintro ⟨⟨hlist, hlength⟩, hnodup⟩
    obtain ⟨xs, hxs⟩ := Option.isSome_iff_exists.mp (by simpa using hlist)
    have hraw : rawValues node fieldName = xs := by rw [rawValues, hxs, Option.getD_some]
    have hlength' : (xs.filterMap Json.text?).length = xs.length := by
      simpa [fieldValues, hraw] using hlength
    obtain ⟨htexts, hempty⟩ := texts_of_length hlength'
    refine ⟨xs.filterMap Json.text?, ⟨by rw [hxs, ← htexts], hempty⟩, ?_⟩
    rwa [fieldValues, hraw] at hnodup
  · rintro ⟨values, hreads, hnodup⟩
    rw [fieldValues_reads hreads]
    refine ⟨⟨by rw [hreads.list]; rfl, ?_⟩, hnodup⟩
    simp [rawValues, hreads.list]

theorem nodeErrors_eq_nil {node : Members} :
    nodeErrors str node = [] ↔ ∃ dependsOn inputs outputs, ReadsTexts node "depends_on" dependsOn ∧
      ReadsTexts node "inputs" inputs ∧ ReadsTexts node "outputs" outputs ∧
      dependsOn.Nodup ∧ inputs.Nodup ∧ outputs.Nodup ∧ outputs ≠ [] := by
  simp only [nodeErrors, List.append_eq_nil_iff, List.flatMap_cons, List.flatMap_nil, fieldErrors_eq_nil, errorIf_eq_nil]
  constructor
  · rintro ⟨⟨⟨ds, hds, hdsNodup⟩, ⟨is, his, hisNodup⟩, ⟨os, hos, hosNodup⟩, -⟩, houtputs⟩
    refine ⟨ds, is, os, hds, his, hos, hdsNodup, hisNodup, hosNodup, ?_⟩
    rintro rfl
    simp [sanitized, fieldValues_reads hos] at houtputs
  · rintro ⟨ds, is, os, hds, his, hos, hdsNodup, hisNodup, hosNodup, hne⟩
    refine ⟨⟨⟨ds, hds, hdsNodup⟩, ⟨is, his, hisNodup⟩, ⟨os, hos, hosNodup⟩, trivial⟩, ?_⟩
    obtain ⟨o, os, rfl⟩ := List.exists_cons_of_ne_nil hne
    simp [sanitized, fieldValues_reads hos, hosNodup.dedup]

theorem readEdge_eq_some {edge : Json} {p : String × String} :
    readEdge edge = some p ↔ edge = edgeJson p ∧ p.1 ≠ "" ∧ p.2 ≠ "" := by
  obtain ⟨a, b⟩ := p
  constructor
  · intro h
    unfold readEdge at h
    split at h
    · split at h
      · rename_i source target _ _ hsource htarget
        obtain ⟨rfl, rfl⟩ := Prod.mk.inj (Option.some.inj h)
        obtain ⟨rfl, ha⟩ := text?_eq_some.mp hsource
        obtain ⟨rfl, hb⟩ := text?_eq_some.mp htarget
        exact ⟨rfl, ha, hb⟩
      · cases h
    · cases h
  · rintro ⟨rfl, ha, hb⟩
    have hsource : (Json.str a).text? = some a := text?_eq_some.mpr ⟨rfl, ha⟩
    have htarget : (Json.str b).text? = some b := text?_eq_some.mpr ⟨rfl, hb⟩
    simp [readEdge, edgeJson, hsource, htarget]

theorem edgeErrors_eq_nil {ids : List String} {edge : Json} :
    edgeErrors ids edge = [] ↔ ∃ p, readEdge edge = some p ∧ p.1 ∈ ids ∧ p.2 ∈ ids := by
  unfold edgeErrors
  cases h : readEdge edge with
  | none => simp
  | some p =>
    obtain ⟨a, b⟩ := p
    simp [errorIf_eq_nil, List.filter_eq_nil_iff]

/-! ## The data of the nodes -/

theorem get?_foldl_addNode (ns : List Members) (data : Dict String Sanitized) (k : String) :
    (ns.foldl addNode data).get? k =
      ((ns.filter fun n => (loopId n).text? = some k).getLast?.map sanitized).or (data.get? k) := by
  induction ns generalizing data with
  | nil => simp
  | cons n ns ih =>
    rw [List.foldl_cons, ih]
    by_cases hk : (loopId n).text? = some k
    · have hget : (addNode data n).get? k = some (sanitized n) := by simp [addNode, hk]
      rw [hget, List.filter_cons_of_pos (by simpa using hk), List.getLast?_cons]
      cases (ns.filter fun n => (loopId n).text? = some k).getLast? <;> simp
    · have hget : (addNode data n).get? k = data.get? k := by
        unfold addNode
        split
        · rename_i id hid
          exact Dict.get?_set_ne _ _ fun he => hk (he ▸ hid)
        · rfl
      rw [hget, List.filter_cons_of_neg (by simpa using hk)]

theorem get?_nodeData (nodes : List Json) (k : String) :
    (nodeData nodes).get? k = ((validNodes nodes).filter fun n => (loopId n).text? = some k).getLast?.map sanitized := by
  rw [nodeData, get?_foldl_addNode, Dict.get?_empty, Option.or_none]

theorem nodup_known (nodes : List Json) : (known nodes).Nodup := List.nodup_dedup _

theorem mem_known {nodes : List Json} {k : String} :
    k ∈ known nodes ↔ ∃ node ∈ validNodes nodes, ∃ json, node.lookup "id" = some json ∧ json.text? = some k := by
  simp only [known, stringIds, nodeIds, List.mem_dedup, List.mem_filterMap, List.mem_map]
  constructor
  · rintro ⟨_, ⟨node, hnode, rfl⟩, htext⟩
    cases hid : node.lookup "id" with
    | none =>
      rw [hid] at htext
      cases htext
    | some json => exact ⟨node, hnode, json, hid, by rwa [hid] at htext⟩
  · rintro ⟨node, hnode, json, hid, htext⟩
    exact ⟨_, ⟨node, hnode, rfl⟩, by rw [hid]; exact htext⟩

theorem loopId_text {nodes : List Json} {node : Members} (hnode : node ∈ validNodes nodes) {k : String}
    (h : (loopId node).text? = some k) : k ∈ known nodes ∨ k = "<missing>" ∧ node.lookup "id" = none := by
  cases hid : node.lookup "id" with
  | none =>
    have hk : k = "<missing>" := by
      rw [loopId, hid] at h
      exact (Option.some.inj ((text?_eq_some.mpr ⟨rfl, by decide⟩ : (Json.str "<missing>").text? = _).symm.trans h)).symm
    exact .inr ⟨hk, rfl⟩
  | some json => exact .inl (mem_known.mpr ⟨node, hnode, json, hid, by rwa [loopId, hid] at h⟩)

theorem loopId_of_none {node : Members} (h : node.lookup "id" = none) : (loopId node).text? = some "<missing>" := by
  rw [loopId, h]
  exact text?_eq_some.mpr ⟨rfl, by decide⟩

/-- What goes by the makeshift name, where no id is that name. -/
theorem get?_missing {nodes : List Json} (h : "<missing>" ∉ known nodes) :
    (nodeData nodes).get? "<missing>" = (unnamed nodes).getLast?.map sanitized := by
  rw [get?_nodeData, unnamed]
  congr 2
  refine List.filter_congr fun node hnode => ?_
  cases hid : node.lookup "id" with
  | none => simp [loopId_of_none hid]
  | some json =>
    have hother : (loopId node).text? ≠ some "<missing>" := by
      intro htext
      rcases loopId_text hnode htext with hmem | ⟨-, hnone⟩
      · exact h hmem
      · rw [hid] at hnone
        cases hnone
    simp [hother]

theorem get?_nodeData_some {nodes : List Json} {k : String} {e : Sanitized} (h : (nodeData nodes).get? k = some e) :
    ∃ node ∈ validNodes nodes, (loopId node).text? = some k ∧ e = sanitized node := by
  rw [get?_nodeData, Option.map_eq_some_iff] at h
  obtain ⟨node, hlast, rfl⟩ := h
  obtain ⟨hnode, htext⟩ := List.mem_filter.mp (List.mem_of_getLast? hlast)
  exact ⟨node, hnode, by simpa using htext, rfl⟩

/-- A known dependency of a node, as the tables have it. -/
def Linkage (nodes : List Json) (d k : String) : Prop :=
  ∃ e, (nodeData nodes).get? k = some e ∧ d ∈ e.dependsOn ∧ d ∈ known nodes

/-- Only a node without an id can be unknown to the tables. -/
theorem links_known {nodes : List Json} (h : ¬ UnnamedDepends nodes) {k : String} {e : Sanitized}
    (he : (nodeData nodes).get? k = some e) : k ∈ known nodes ∨ ∀ d ∈ e.dependsOn, d ∉ known nodes := by
  by_cases hk : k ∈ known nodes
  · exact .inl hk
  · obtain ⟨node, hnode, htext, -⟩ := get?_nodeData_some he
    have hmissing : k = "<missing>" := ((loopId_text hnode htext).resolve_left hk).1
    subst hmissing
    rw [get?_missing hk, Option.map_eq_some_iff] at he
    obtain ⟨last, hlast, rfl⟩ := he
    refine .inr fun d hd hknown => h ⟨hk, last, hlast, d, ?_, hknown⟩
    simpa [sanitized] using hd

theorem nodup_dependsOn {nodes : List Json} {k : String} {e : Sanitized} (he : (nodeData nodes).get? k = some e) :
    e.dependsOn.Nodup := by
  obtain ⟨node, -, -, rfl⟩ := get?_nodeData_some he
  exact List.nodup_dedup _

/-! ## What the check finds -/

variable {order : SetOrder}

/-- Nothing is said of the lists, the nodes, the edges and the graph. -/
structure Unblamed (str : Json → String) (operators edges nodes : List Json) : Prop where
  head : headErrors operators edges nodes = []
  edge : ∀ edge ∈ edges, edgeErrors (known nodes) edge = []
  distinct : (declaredEdges edges).Nodup
  node : ∀ node ∈ validNodes nodes, nodeErrors str node = []
  entry : ∀ k e, (nodeData nodes).get? k = some e → entryErrors (nodeData nodes) (known nodes) (k, e) = []
  edges : ∀ d k, (d, k) ∈ declaredEdges edges ↔ Linkage nodes d k
  acyclic : ∀ k, ¬ Relation.TransGen (Linkage nodes) k k
  connected : ∀ a ∈ known nodes, ∀ b ∈ known nodes,
    Relation.ReflTransGen (fun a b => Linkage nodes a b ∨ Linkage nodes b a) a b

variable (str order) in
theorem validateGraph_ok (operators edges : List Json) {nodes : List Json} (h : ¬ UnnamedDepends nodes) :
    ∃ errors, validateGraph order str operators edges nodes = .ok errors ∧
      (errors = [] ↔ Unblamed str operators edges nodes) := by
  let ids := known nodes
  let pairs := (nodeData nodes).entries.flatMap (pairsOf order ids)
  have hmem : ∀ d k, (d, k) ∈ pairs ↔ Linkage nodes d k := fun d k => mem_pairs
  obtain ⟨links, hlinks, hlinked⟩ := link_ok order (fun _ _ he => nodup_dependsOn he)
    (fun _ _ he => links_known h he)
  have hpairs : pairs.Nodup := nodup_pairs fun _ _ he => nodup_dependsOn he
  have hknown : ∀ d k, (d, k) ∈ pairs → d ∈ ids := by
    intro d k hpair
    obtain ⟨_, -, -, hd⟩ := (hmem d k).mp hpair
    exact hd
  have hnodes : ∀ d k, (d, k) ∈ pairs → k ∈ ids := by
    intro d k hpair
    obtain ⟨e, he, hd, hids⟩ := (hmem d k).mp hpair
    exact (links_known h he).resolve_right fun hnone => hnone d hd hids
  obtain ⟨drained, hdrained, hacyclic⟩ := drain_ok order (nodup_known nodes) hpairs hknown hnodes hlinked
  obtain ⟨reached, hreached, hconnected⟩ := connected_ok order (nodup_known nodes) hknown hnodes hlinked
  have hrelation : (fun d k => (d, k) ∈ pairs) = Linkage nodes := by
    funext d k
    exact propext (hmem d k)
  have hjoined : Joined pairs = fun a b => Linkage nodes a b ∨ Linkage nodes b a := by
    funext a b
    exact propext (or_congr (hmem a b) (hmem b a))
  rw [hrelation] at hacyclic
  rw [hjoined] at hconnected
  have hedges : ((declaredEdges edges).toFinset != links.dependencyEdges.toFinset) = false ↔
      ∀ d k, (d, k) ∈ declaredEdges edges ↔ Linkage nodes d k := by
    rw [bne_eq_false_iff_eq, Finset.ext_iff]
    simp only [List.mem_toFinset, hlinked.edges, Prod.forall]
    exact forall₂_congr fun d k => iff_congr .rfl (hmem d k)
  refine ⟨foundErrors str operators edges nodes links drained.visited reached, ?_, ?_⟩
  · simp only [validateGraph, hlinks, hdrained, hreached, bind, Except.bind]
    rfl
  · simp only [foundErrors, List.append_eq_nil_iff, errorIf_eq_nil, List.flatMap_eq_nil_iff, dedup_length_bne]
    constructor
    · rintro ⟨⟨⟨⟨⟨⟨⟨hhead, hedge⟩, hdistinct⟩, hnode⟩, hentry⟩, hsame⟩, hvisited⟩, hreach⟩
      exact ⟨hhead, hedge, hdistinct, hnode, fun k e he => hentry (k, e) (mem_entries.mpr he), hedges.mp hsame,
        hacyclic.mp (by simpa using hvisited), hconnected.mp hreach⟩
    · intro hunblamed
      refine ⟨⟨⟨⟨⟨⟨⟨hunblamed.head, hunblamed.edge⟩, hunblamed.distinct⟩, hunblamed.node⟩, ?_⟩, hedges.mpr hunblamed.edges⟩, ?_⟩,
        hconnected.mpr hunblamed.connected⟩
      · rintro ⟨k, e⟩ hentry
        exact hunblamed.entry k e (Dict.get?_of_mem_entries hentry)
      · simpa using hacyclic.mpr hunblamed.acyclic

/-! ## Plans that are read -/

theorem mem_left {R : Members → PlanNode → Prop} {nodes : List Members} {ns : List PlanNode} (h : List.Forall₂ R nodes ns)
    {node : Members} (hnode : node ∈ nodes) : ∃ n ∈ ns, R node n := by
  induction h with
  | nil => cases hnode
  | cons hhead _ ih =>
    rcases List.mem_cons.mp hnode with rfl | hnode
    · exact ⟨_, by simp, hhead⟩
    · obtain ⟨n, hn, hr⟩ := ih hnode
      exact ⟨n, by simp [hn], hr⟩

theorem mem_right {R : Members → PlanNode → Prop} {nodes : List Members} {ns : List PlanNode} (h : List.Forall₂ R nodes ns)
    {n : PlanNode} (hn : n ∈ ns) : ∃ node ∈ nodes, R node n := by
  induction h with
  | nil => cases hn
  | cons hhead _ ih =>
    rcases List.mem_cons.mp hn with rfl | hn
    · exact ⟨_, by simp, hhead⟩
    · obtain ⟨node, hnode, hr⟩ := ih hn
      exact ⟨node, by simp [hnode], hr⟩

theorem validNodes_map (nodes : List Members) : validNodes (nodes.map .obj) = nodes := by
  induction nodes with
  | nil => rfl
  | cons node nodes ih =>
    rw [validNodes, List.map_cons, List.filterMap_cons_some (show (Json.obj node).members? = some node from rfl)]
    exact congrArg _ ih

theorem objects_of_length {nodes : List Json} (h : (validNodes nodes).length = nodes.length) :
    nodes = (validNodes nodes).map .obj := by
  induction nodes with
  | nil => rfl
  | cons json nodes ih =>
    have hle : (nodes.filterMap Json.members?).length ≤ nodes.length := List.length_filterMap_le _ _
    cases hjson : json.members? with
    | none =>
      rw [validNodes, List.filterMap_cons_none hjson, List.length_cons] at h
      omega
    | some node =>
      rw [validNodes, List.filterMap_cons_some hjson] at h ⊢
      have hobj : json = .obj node := by
        cases json <;> simp_all [Json.members?]
      have hrest := ih (by simpa [validNodes] using h)
      rw [List.map_cons, hobj]
      exact congrArg _ hrest

section

variable {nodes : List Members} {ns : List PlanNode}

theorem ids_of_reads (h : List.Forall₂ ReadsNode nodes ns) :
    nodeIds (nodes.map .obj) = ns.map (.str ·.id) ∧ stringIds (nodes.map .obj) = ns.map (·.id) ∧
      nodeOperators (nodes.map .obj) = ns.map (.str ·.operator) := by
  simp only [stringIds, nodeIds, nodeOperators, validNodes_map]
  induction h with
  | nil => simp
  | cons hhead _ ih =>
    obtain ⟨hids, hstrings, hoperators⟩ := ih
    have htext : (Json.str _).text? = some _ := text?_eq_some.mpr ⟨rfl, hhead.idText⟩
    refine ⟨?_, ?_, ?_⟩
    · rw [List.map_cons, List.map_cons, hids, hhead.id]
      rfl
    · rw [List.map_cons, List.map_cons, hhead.id, Option.getD_some, List.filterMap_cons_some htext, hstrings]
    · rw [List.map_cons, List.map_cons, hoperators, hhead.operator]
      rfl

theorem known_of_reads (h : List.Forall₂ ReadsNode nodes ns) (hids : (ns.map (·.id)).Nodup) :
    known (nodes.map .obj) = ns.map (·.id) := by
  rw [known, (ids_of_reads h).2.1, hids.dedup]

/-- The sets a node is kept as. -/
def PlanNode.sets (n : PlanNode) : Sanitized := ⟨n.dependsOn.dedup, n.inputs.dedup, n.outputs.dedup⟩

theorem sanitized_reads {node : Members} {n : PlanNode} (h : ReadsNode node n) : sanitized node = n.sets := by
  rw [sanitized, fieldValues_reads h.dependsOn, fieldValues_reads h.inputs, fieldValues_reads h.outputs, PlanNode.sets]

theorem loopId_reads {node : Members} {n : PlanNode} (h : ReadsNode node n) : (loopId node).text? = some n.id := by
  rw [loopId, h.id]
  exact text?_eq_some.mpr ⟨rfl, h.idText⟩

theorem get?_reads (h : List.Forall₂ ReadsNode nodes ns) (hids : (ns.map (·.id)).Nodup) {k : String} {e : Sanitized} :
    (nodeData (nodes.map .obj)).get? k = some e ↔ ∃ n ∈ ns, n.id = k ∧ e = n.sets := by
  rw [get?_nodeData, validNodes_map, Option.map_eq_some_iff]
  constructor
  · rintro ⟨node, hlast, rfl⟩
    obtain ⟨hnode, htext⟩ := List.mem_filter.mp (List.mem_of_getLast? hlast)
    obtain ⟨n, hn, hreads⟩ := mem_left h hnode
    refine ⟨n, hn, ?_, sanitized_reads hreads⟩
    have hid := loopId_reads hreads
    rw [decide_eq_true_eq, hid] at htext
    exact Option.some.inj htext
  · rintro ⟨n, hn, rfl, rfl⟩
    obtain ⟨node, hnode, hreads⟩ := mem_right h hn
    have hfiltered : node ∈ nodes.filter fun m => (loopId m).text? = some n.id :=
      List.mem_filter.mpr ⟨hnode, by simp [loopId_reads hreads]⟩
    obtain ⟨last, hlast⟩ : ∃ last, (nodes.filter fun m => (loopId m).text? = some n.id).getLast? = some last := by
      refine Option.ne_none_iff_exists'.mp fun hnone => ?_
      exact List.ne_nil_of_mem hfiltered (List.getLast?_eq_none_iff.mp hnone)
    refine ⟨last, hlast, ?_⟩
    -- Ids are distinct, so the last node of the id is the node.
    obtain ⟨hmem, htext⟩ := List.mem_filter.mp (List.mem_of_getLast? hlast)
    obtain ⟨m, hm, hreads'⟩ := mem_left h hmem
    have hid : m.id = n.id := by
      rw [decide_eq_true_eq, loopId_reads hreads'] at htext
      exact Option.some.inj htext
    obtain rfl := List.inj_on_of_nodup_map hids hm hn hid
    exact sanitized_reads hreads'

theorem linkage_of_reads (h : List.Forall₂ ReadsNode nodes ns) (hids : (ns.map (·.id)).Nodup) {d k : String} :
    Linkage (nodes.map .obj) d k ↔ Depends ns d k ∧ d ∈ ns.map (·.id) := by
  simp only [Linkage, get?_reads h hids, known_of_reads h hids, Depends]
  constructor
  · rintro ⟨_, ⟨n, hn, hk, rfl⟩, hd, hknown⟩
    exact ⟨⟨n, hn, hk, List.mem_dedup.mp hd⟩, hknown⟩
  · rintro ⟨⟨n, hn, hk, hd⟩, hknown⟩
    exact ⟨_, ⟨n, hn, hk, rfl⟩, List.mem_dedup.mpr hd, hknown⟩

/-- The dependencies of an entry are known, and its inputs are outputs of theirs. -/
theorem entryErrors_of_reads (h : List.Forall₂ ReadsNode nodes ns) (hids : (ns.map (·.id)).Nodup) {n : PlanNode} :
    entryErrors (nodeData (nodes.map .obj)) (known (nodes.map .obj)) (n.id, n.sets) = [] ↔
      (∀ d ∈ n.dependsOn, d ∈ ns.map (·.id)) ∧
        (n.dependsOn ≠ [] → n.inputs ≠ [] ∧ ∀ i ∈ n.inputs, ∃ m ∈ ns, m.id ∈ n.dependsOn ∧ i ∈ m.outputs) := by
  have hdedup : ∀ xs : List String, xs.dedup = [] ↔ xs = [] := by
    intro xs
    rw [List.eq_nil_iff_forall_not_mem, List.eq_nil_iff_forall_not_mem]
    simp
  have hupstream : ∀ i, i ∈ upstreamOutputs (nodeData (nodes.map .obj)) n.sets ↔
      ∃ m ∈ ns, m.id ∈ n.dependsOn ∧ i ∈ m.outputs := by
    intro i
    simp only [upstreamOutputs, List.mem_flatMap, PlanNode.sets, List.mem_dedup]
    constructor
    · rintro ⟨d, hd, hi⟩
      cases hget : (nodeData (nodes.map .obj)).get? d with
      | none =>
        rw [hget] at hi
        cases hi
      | some e =>
        obtain ⟨m, hm, rfl, rfl⟩ := (get?_reads h hids).mp hget
        rw [hget] at hi
        exact ⟨m, hm, hd, List.mem_dedup.mp hi⟩
    · rintro ⟨m, hm, hd, hi⟩
      refine ⟨m.id, hd, ?_⟩
      rw [(get?_reads h hids).mpr ⟨m, hm, rfl, rfl⟩]
      exact List.mem_dedup.mpr hi
  simp only [entryErrors, List.append_eq_nil_iff, errorIf_eq_nil, known_of_reads h hids]
  refine and_congr ?_ ?_
  · simp [PlanNode.sets, List.filter_eq_nil_iff]
  · by_cases hdepends : n.dependsOn = []
    · simp [PlanNode.sets, hdepends, errorIf_eq_nil]
    · by_cases hinputs : n.inputs = []
      · simp [PlanNode.sets, hdepends, hinputs, hdedup]
      · simp only [PlanNode.sets] at hupstream
        simp [PlanNode.sets, hdepends, hinputs, hdedup, errorIf_eq_nil, List.filter_eq_nil_iff, hupstream]

end

/-- What a node says has no repetitions, and it has an output. -/
def Tidy (n : PlanNode) : Prop := n.dependsOn.Nodup ∧ n.inputs.Nodup ∧ n.outputs.Nodup ∧ n.outputs ≠ []

theorem exists_forall₂ {R : Members → PlanNode → Prop} {nodes : List Members} (h : ∀ node ∈ nodes, ∃ n, R node n) :
    ∃ ns, List.Forall₂ R nodes ns := by
  induction nodes with
  | nil => exact ⟨[], .nil⟩
  | cons node nodes ih =>
    obtain ⟨n, hn⟩ := h node (by simp)
    obtain ⟨ns, hns⟩ := ih fun m hm => h m (by simp [hm])
    exact ⟨n :: ns, .cons hn hns⟩

theorem lookup_of_text {node : Members} {name s : String} (h : ((node.lookup name).getD .null).text? = some s) :
    node.lookup name = some (.str s) ∧ s ≠ "" := by
  cases hlookup : node.lookup name with
  | none =>
    rw [hlookup] at h
    cases h
  | some json =>
    rw [hlookup, Option.getD_some] at h
    obtain ⟨rfl, hs⟩ := text?_eq_some.mp h
    exact ⟨rfl, hs⟩

/-- Before the graph is looked at: the nodes are read, of distinct ids, in the order of the
    operators. -/
theorem reads_of_head {operators edges nodes : List Json} (hhead : headErrors operators edges nodes = [])
    (hnodes : ∀ node ∈ validNodes nodes, nodeErrors str node = []) :
    ∃ members ns, nodes = members.map .obj ∧ List.Forall₂ ReadsNode members ns ∧ operators = ns.map (.str ·.operator) ∧
      (ns.map (·.id)).Nodup ∧ ∀ n ∈ ns, Tidy n := by
  simp only [headErrors, List.append_eq_nil_iff, errorIf_eq_nil] at hhead
  obtain ⟨⟨⟨⟨⟨⟨-, -⟩, htexts⟩, hobjects⟩, hids⟩, hduplicates⟩, hsame⟩ := hhead
  have htexts : ∀ operator ∈ operators, operator.text?.isSome = true := by
    simpa [List.any_eq_false, Option.ne_none_iff_isSome] using htexts
  have hids : ∀ id ∈ nodeIds nodes, id.text?.isSome = true := by
    simpa [List.any_eq_false, Option.ne_none_iff_isSome] using hids
  have hobjects : nodes = (validNodes nodes).map .obj := objects_of_length (by simpa using hobjects)
  have hoperators : nodeOperators nodes = operators := (sameAll_texts htexts).mp (by simpa using hsame)
  have hread : ∀ node ∈ validNodes nodes, ∃ n, ReadsNode node n ∧ Tidy n := by
    intro node hnode
    obtain ⟨ds, is, os, hds, his, hos, hdsNodup, hisNodup, hosNodup, hne⟩ := nodeErrors_eq_nil.mp (hnodes node hnode)
    obtain ⟨id, hid⟩ := Option.isSome_iff_exists.mp (hids _ (List.mem_map.mpr ⟨node, hnode, rfl⟩))
    have hoperator : (node.lookup "operator").getD .null ∈ operators := hoperators ▸ List.mem_map.mpr ⟨node, hnode, rfl⟩
    obtain ⟨operator, hoperator⟩ := Option.isSome_iff_exists.mp (htexts _ hoperator)
    obtain ⟨hid, hidText⟩ := lookup_of_text hid
    obtain ⟨hoperator, hoperatorText⟩ := lookup_of_text hoperator
    exact ⟨⟨id, operator, ds, is, os⟩, ⟨hid, hidText, hoperator, hoperatorText, hds, his, hos⟩,
      hdsNodup, hisNodup, hosNodup, hne⟩
  obtain ⟨ns, hns⟩ := exists_forall₂ hread
  have hreads : List.Forall₂ ReadsNode (validNodes nodes) ns := hns.imp fun _ _ h => h.1
  obtain ⟨-, hstrings, hnames⟩ := ids_of_reads hreads
  rw [← hobjects] at hstrings hnames
  refine ⟨validNodes nodes, ns, hobjects, hreads, hoperators.symm.trans hnames, ?_, fun n hn => ?_⟩
  · rw [← hstrings, List.nodup_iff_count_le_one]
    intro id
    by_cases hmem : id ∈ stringIds nodes
    · have hnone := List.filter_eq_nil_iff.mp (by simpa using hduplicates : duplicateIds nodes = []) id (List.mem_dedup.mpr hmem)
      simpa using hnone
    · rw [List.count_eq_zero.mpr hmem]
      omega
  · obtain ⟨_, -, -, htidy⟩ := mem_right hns hn
    exact htidy

theorem head_of_reads {members : List Members} {ns : List PlanNode} {edges : List Json}
    (h : List.Forall₂ ReadsNode members ns) (hids : (ns.map (·.id)).Nodup) (hedges : ns = [] → edges = []) :
    headErrors (ns.map (.str ·.operator)) edges (members.map .obj) = [] := by
  obtain ⟨hnodeIds, hstrings, hnames⟩ := ids_of_reads h
  have hlength := h.length_eq
  have htexts : ∀ operator ∈ ns.map (Json.str ·.operator), operator.text?.isSome = true := by
    intro operator hoperator
    obtain ⟨n, hn, rfl⟩ := List.mem_map.mp hoperator
    obtain ⟨_, -, hreads⟩ := mem_right h hn
    rw [text?_eq_some.mpr ⟨rfl, hreads.operatorText⟩]
    rfl
  have hidTexts : ∀ id ∈ ns.map (Json.str ·.id), id.text?.isSome = true := by
    intro id hid
    obtain ⟨n, hn, rfl⟩ := List.mem_map.mp hid
    obtain ⟨_, -, hreads⟩ := mem_right h hn
    rw [text?_eq_some.mpr ⟨rfl, hreads.idText⟩]
    rfl
  have hempty : members = [] ↔ ns = [] := by
    rw [← List.length_eq_zero_iff, ← List.length_eq_zero_iff, hlength]
  simp only [headErrors, List.append_eq_nil_iff, errorIf_eq_nil, hnodeIds, hnames, validNodes_map]
  refine ⟨⟨⟨⟨⟨⟨?_, ?_⟩, ?_⟩, ?_⟩, ?_⟩, ?_⟩, ?_⟩
  · by_cases hns : ns = []
    · simp [hempty.mpr hns]
    · simp [hns]
  · by_cases hns : ns = []
    · simp [hedges hns]
    · simp [hempty, hns]
  · simpa [List.any_eq_false, Option.ne_none_iff_isSome] using htexts
  · simp
  · simpa [List.any_eq_false, Option.ne_none_iff_isSome] using hidTexts
  · have hnone : duplicateIds (members.map .obj) = [] := by
      rw [duplicateIds, List.filter_eq_nil_iff, hstrings]
      intro id _
      have hcount := List.nodup_iff_count_le_one.mp hids id
      simpa using hcount
    simp [hnone]
  · simp [(sameAll_texts htexts).mpr rfl]

theorem edges_of_reads {edges : List Json} (h : ∀ edge ∈ edges, ∃ p, readEdge edge = some p) :
    edges = (declaredEdges edges).map edgeJson := by
  induction edges with
  | nil => rfl
  | cons edge edges ih =>
    obtain ⟨p, hp⟩ := h edge (by simp)
    rw [declaredEdges, List.filterMap_cons_some hp, List.map_cons, ← (readEdge_eq_some.mp hp).1]
    exact congrArg _ (ih fun e he => h e (by simp [he]))

theorem declaredEdges_map {edges : List (String × String)} (h : ∀ p ∈ edges, p.1 ≠ "" ∧ p.2 ≠ "") :
    declaredEdges (edges.map edgeJson) = edges := by
  induction edges with
  | nil => rfl
  | cons p edges ih =>
    have hp : readEdge (edgeJson p) = some p := readEdge_eq_some.mpr ⟨rfl, h p (by simp)⟩
    rw [declaredEdges, List.map_cons, List.filterMap_cons_some hp]
    exact congrArg _ (ih fun q hq => h q (by simp [hq]))

theorem sound_of_unblamed {members : List Members} {ns : List PlanNode} {operators edges : List Json}
    (h : Unblamed str operators edges (members.map .obj)) (hreads : List.Forall₂ ReadsNode members ns)
    (hids : (ns.map (·.id)).Nodup) (htidy : ∀ n ∈ ns, Tidy n) : Sound ns (declaredEdges edges) := by
  have hentry : ∀ n ∈ ns, (∀ d ∈ n.dependsOn, d ∈ ns.map (·.id)) ∧
      (n.dependsOn ≠ [] → n.inputs ≠ [] ∧ ∀ i ∈ n.inputs, ∃ m ∈ ns, m.id ∈ n.dependsOn ∧ i ∈ m.outputs) :=
    fun n hn => (entryErrors_of_reads hreads hids).mp (h.entry n.id n.sets ((get?_reads hreads hids).mpr ⟨n, hn, rfl, rfl⟩))
  have hlinkage : Linkage (members.map .obj) = Depends ns := by
    funext d k
    refine propext ((linkage_of_reads hreads hids).trans ⟨fun h => h.1, fun hdepends => ⟨hdepends, ?_⟩⟩)
    obtain ⟨n, hn, -, hd⟩ := hdepends
    exact (hentry n hn).1 d hd
  have hedges := h.edges
  have hacyclic := h.acyclic
  have hconnected := h.connected
  rw [hlinkage] at hedges hacyclic hconnected
  rw [known_of_reads hreads hids] at hconnected
  exact ⟨hids, h.distinct, hedges, fun n hn => (hentry n hn).1, fun n hn => (htidy n hn).1, hacyclic, hconnected,
    fun n hn => ⟨(htidy n hn).2.2.2, (htidy n hn).2.2.1⟩, fun n hn => (hentry n hn).2⟩

theorem unblamed_of_sound {members : List Members} {ns : List PlanNode} {edges : List (String × String)}
    (h : Sound ns edges) (hinputs : ∀ n ∈ ns, n.inputs.Nodup) (hreads : List.Forall₂ ReadsNode members ns) :
    Unblamed str (ns.map (.str ·.operator)) (edges.map edgeJson) (members.map .obj) := by
  have hknown := known_of_reads hreads h.ids
  have hidText : ∀ id ∈ ns.map (·.id), id ≠ "" := by
    intro id hid
    obtain ⟨n, hn, rfl⟩ := List.mem_map.mp hid
    obtain ⟨_, -, hreads⟩ := mem_right hreads hn
    exact hreads.idText
  have hends : ∀ d k, (d, k) ∈ edges → d ∈ ns.map (·.id) ∧ k ∈ ns.map (·.id) := by
    intro d k hedge
    obtain ⟨n, hn, rfl, hd⟩ := (h.edges d k).mp hedge
    exact ⟨h.known n hn d hd, List.mem_map.mpr ⟨n, hn, rfl⟩⟩
  have hdeclared : declaredEdges (edges.map edgeJson) = edges :=
    declaredEdges_map fun p hp => ⟨hidText _ (hends p.1 p.2 hp).1, hidText _ (hends p.1 p.2 hp).2⟩
  have hlinkage : Linkage (members.map .obj) = Depends ns := by
    funext d k
    refine propext ((linkage_of_reads hreads h.ids).trans ⟨fun h => h.1, fun hdepends => ⟨hdepends, ?_⟩⟩)
    obtain ⟨n, hn, -, hd⟩ := hdepends
    exact h.known n hn d hd
  refine ⟨head_of_reads hreads h.ids ?_, ?_, by rw [hdeclared]; exact h.distinct, ?_, ?_, ?_, ?_, ?_⟩
  · rintro rfl
    have hnone : edges = [] := by
      refine List.eq_nil_iff_forall_not_mem.mpr ?_
      rintro ⟨d, k⟩ hedge
      obtain ⟨n, hn, -⟩ := (h.edges d k).mp hedge
      cases hn
    rw [hnone, List.map_nil]
  · intro edge hedge
    obtain ⟨⟨d, k⟩, hp, rfl⟩ := List.mem_map.mp hedge
    obtain ⟨hd, hk⟩ := hends d k hp
    rw [hknown]
    exact edgeErrors_eq_nil.mpr ⟨(d, k), readEdge_eq_some.mpr ⟨rfl, hidText d hd, hidText k hk⟩, hd, hk⟩
  · intro node hnode
    rw [validNodes_map] at hnode
    obtain ⟨n, hn, hreads⟩ := mem_left hreads hnode
    exact nodeErrors_eq_nil.mpr ⟨n.dependsOn, n.inputs, n.outputs, hreads.dependsOn, hreads.inputs, hreads.outputs,
      h.once n hn, hinputs n hn, (h.outputs n hn).2, (h.outputs n hn).1⟩
  · intro k e he
    obtain ⟨n, hn, rfl, rfl⟩ := (get?_reads hreads h.ids).mp he
    exact (entryErrors_of_reads hreads h.ids).mpr ⟨h.known n hn, h.inputs n hn⟩
  · rw [hdeclared, hlinkage]
    exact h.edges
  · rw [hlinkage]
    exact h.acyclic
  · rw [hlinkage, hknown]
    exact h.connected

/-! ## The check -/

/-- The check returns, with no error exactly where the value is a well formed plan, unless
    a node without an id depends on another. -/
theorem validatePlan_ok (order : SetOrder) (str : Json → String) (plan : Json) (h : ¬ DependsUnnamed plan) :
    ∃ errors, validatePlan order str plan = .ok errors ∧ (errors = [] ↔ WellFormedPlan plan) := by
  have hrefused : ∀ message, validatePlan order str plan = .ok [message] → ¬ WellFormedPlan plan →
      ∃ errors, validatePlan order str plan = .ok errors ∧ (errors = [] ↔ WellFormedPlan plan) :=
    fun message hok hnot => ⟨[message], hok, by simpa using hnot⟩
  cases plan with
  | obj members =>
    cases hoperators : listField members "operators" with
    | none =>
      refine hrefused _ (by simp only [validatePlan, hoperators]; rfl) ?_
      rintro ⟨ns, edges, ⟨_, _, hplan, hlist, -⟩, -⟩
      obtain rfl := Json.obj.inj hplan
      rw [hoperators] at hlist
      cases hlist
    | some operators =>
      cases hedges : listField members "edges" with
      | none =>
        refine hrefused _ (by simp only [validatePlan, hoperators, hedges]; rfl) ?_
        rintro ⟨ns, edges, ⟨_, _, hplan, -, hlist, -⟩, -⟩
        obtain rfl := Json.obj.inj hplan
        rw [hedges] at hlist
        cases hlist
      | some edges =>
        cases hnodes : listField members "nodes" with
        | none =>
          refine hrefused _ (by simp only [validatePlan, hoperators, hedges, hnodes]; rfl) ?_
          rintro ⟨ns, edges, ⟨_, _, hplan, -, -, hlist, -⟩, -⟩
          obtain rfl := Json.obj.inj hplan
          rw [hnodes] at hlist
          cases hlist
        | some nodes =>
          -- The plan that is read is made of these three lists.
          have hmade : ∀ ns es, Says (.obj members) ns es ↔ ∃ ms : List Members, operators = ns.map (.str ·.operator) ∧
              edges = es.map edgeJson ∧ nodes = ms.map .obj ∧ List.Forall₂ ReadsNode ms ns := by
            intro ns es
            constructor
            · rintro ⟨_, ms, hplan, hops, heds, hnds, hreads⟩
              obtain rfl := Json.obj.inj hplan
              rw [hoperators] at hops
              rw [hedges] at heds
              rw [hnodes] at hnds
              exact ⟨ms, Option.some.inj hops, Option.some.inj heds, Option.some.inj hnds, hreads⟩
            · rintro ⟨ms, rfl, rfl, rfl, hreads⟩
              exact ⟨members, ms, rfl, hoperators, hedges, hnodes, hreads⟩
          by_cases hempty : (!operators.isEmpty && nodes.isEmpty) = true
          · refine hrefused _ (by simp only [validatePlan, hoperators, hedges, hnodes, if_pos hempty]; rfl) ?_
            rintro ⟨ns, es, hplan, -⟩
            obtain ⟨ms, rfl, -, rfl, hreads⟩ := (hmade ns es).mp hplan
            have hlength := hreads.length_eq
            simp only [Bool.and_eq_true, Bool.not_eq_true', List.isEmpty_eq_false_iff, List.isEmpty_iff, ne_eq,
              List.map_eq_nil_iff] at hempty
            obtain ⟨hns, rfl⟩ := hempty
            exact hns (List.length_eq_zero_iff.mp hlength.symm)
          · have hnamed : ¬ UnnamedDepends nodes :=
              fun hunnamed => h ⟨members, operators, edges, nodes, rfl, hoperators, hedges, hnodes, hunnamed⟩
            obtain ⟨errors, herrors, hiff⟩ := validateGraph_ok str order operators edges hnamed
            refine ⟨errors, by simp only [validatePlan, hoperators, hedges, hnodes, if_neg hempty]; exact herrors, ?_⟩
            rw [hiff]
            constructor
            · intro hunblamed
              obtain ⟨ms, ns, rfl, hreads, hops, hids, htidy⟩ := reads_of_head hunblamed.head hunblamed.node
              have hread : edges = (declaredEdges edges).map edgeJson := edges_of_reads fun edge hedge => by
                obtain ⟨p, hp, -⟩ := edgeErrors_eq_nil.mp (hunblamed.edge edge hedge)
                exact ⟨p, hp⟩
              exact ⟨ns, declaredEdges edges, (hmade _ _).mpr ⟨ms, hops, hread, rfl, hreads⟩,
                sound_of_unblamed hunblamed hreads hids htidy, fun n hn => (htidy n hn).2.1⟩
            · rintro ⟨ns, es, hplan, hsound, hinputs⟩
              obtain ⟨ms, rfl, rfl, rfl, hreads⟩ := (hmade ns es).mp hplan
              exact unblamed_of_sound hsound hinputs hreads
  | null | bool | num | str | arr =>
    refine hrefused "plan must be an object" rfl ?_
    rintro ⟨ns, edges, ⟨_, _, hplan, -⟩, -⟩
    cases hplan

variable (order) in
/-- The loop over the nodes up to the one that goes by the makeshift name. -/
theorem foldlM_linkNode_raises {ids : List String} {before after : List (String × Sanitized)} {e : Sanitized}
    (hkeys : ((before ++ ("<missing>", e) :: after).map (·.1)).Nodup) (hsets : ∀ f ∈ before, f.2.dependsOn.Nodup)
    (hbefore : ∀ f ∈ before, f.1 ∈ ids) (hmissing : "<missing>" ∉ ids) {d : String} (hd : d ∈ e.dependsOn) (hids : d ∈ ids) :
    (before ++ ("<missing>", e) :: after).foldlM (linkNode order ids) (emptyLinks (order.list ids)) =
      .error (.keyError "<missing>") := by
  have hkeysBefore : (before.map (·.1)).Nodup := by
    rw [List.map_append] at hkeys
    exact hkeys.of_append_left
  obtain ⟨links, hlinks, hlinked⟩ := foldlM_linkNode_ok order hkeysBefore hsets (fun f hf => .inl (hbefore f hf))
    (linked_empty (order.perm ids)) (by simp)
  have hfailure : linkNode order ids links ("<missing>", e) = .error (.keyError "<missing>") := by
    have hmem : d ∈ order.list (e.dependsOn.filter (· ∈ ids)) :=
      (order.perm _).mem_iff.mpr (List.mem_filter.mpr ⟨hd, by simpa using hids⟩)
    unfold linkNode
    cases hlist : order.list (e.dependsOn.filter (· ∈ ids)) with
    | nil =>
      rw [hlist] at hmem
      cases hmem
    | cons first rest =>
      have hfirst : first ∈ ids := by
        have hin : first ∈ order.list (e.dependsOn.filter (· ∈ ids)) := by simp [hlist]
        simpa using (List.mem_filter.mp ((order.perm _).mem_iff.mp hin)).2
      obtain ⟨ns, hns, -⟩ := hlinked.undirected first hfirst
      have hother : "<missing>" ≠ first := fun he => hmissing (he ▸ hfirst)
      have hnone : (links.undirected.set first (if "<missing>" ∈ ns then ns else ns ++ ["<missing>"])).get? "<missing>" = none :=
        (Dict.get?_set_ne _ _ hother).trans (hlinked.outside _ hmissing)
      have hsecond : addTo (links.undirected.set first (if "<missing>" ∈ ns then ns else ns ++ ["<missing>"])) "<missing>" first =
          .error (.keyError "<missing>") := by
        rw [addTo, getItem, hnone]
        rfl
      have hlink : linkDependency "<missing>" links first = .error (.keyError "<missing>") := by
        simp only [linkDependency, addTo_ok hns, hsecond, bind, Except.bind]
      rw [List.foldlM_cons, hlink]
      rfl
  rw [List.foldlM_append, hlinks]
  show (List.foldlM (linkNode order ids) links (("<missing>", e) :: after)) = _
  rw [List.foldlM_cons, hfailure]
  rfl

/-- A node without an id that depends on another makes the check fail. -/
theorem validatePlan_raises (order : SetOrder) (str : Json → String) (plan : Json) (h : DependsUnnamed plan) :
    validatePlan order str plan = .error (.keyError "<missing>") := by
  obtain ⟨members, operators, edges, nodes, rfl, hoperators, hedges, hnodes, hmissing, node, hlast, d, hd, hknown⟩ := h
  have hnonempty : (!operators.isEmpty && nodes.isEmpty) = false := by
    cases nodes with
    | nil => cases hlast
    | cons => simp
  have hget : (nodeData nodes).get? "<missing>" = some (sanitized node) := by rw [get?_missing hmissing, hlast, Option.map_some]
  obtain ⟨before, after, hsplit⟩ := List.append_of_mem (mem_entries.mpr hget)
  have hkeys : ((before ++ ("<missing>", sanitized node) :: after).map (·.1)).Nodup := hsplit ▸ (nodeData nodes).nodup
  have hbefore : ∀ f ∈ before, (nodeData nodes).get? f.1 = some f.2 := fun f hf =>
    Dict.get?_of_mem_entries (hsplit ▸ List.mem_append_left _ hf)
  have hother : ∀ f ∈ before, f.1 ≠ "<missing>" := by
    intro f hf he
    rw [List.map_append, List.nodup_append] at hkeys
    exact hkeys.2.2 f.1 (List.mem_map_of_mem hf) "<missing>" (by simp) he
  have hraises := foldlM_linkNode_raises order hkeys (fun f hf => nodup_dependsOn (hbefore f hf)) (by
    intro f hf
    obtain ⟨m, hm, htext, -⟩ := get?_nodeData_some (hbefore f hf)
    exact (loopId_text hm htext).resolve_right fun hmiss => hother f hf hmiss.1) hmissing
    (List.mem_dedup.mpr hd) hknown
  rw [← hsplit] at hraises
  simp only [validatePlan, hoperators, hedges, hnodes, hnonempty, Bool.false_eq_true, if_false, validateGraph, hraises]
  rfl

/-- A set in the order in which it was filled. -/
def filledOrder : SetOrder := ⟨id, fun _ => .refl _⟩

/-- `str` of a string. -/
def textOf : Json → String
  | .str s => s
  | _ => "None"

/-- A scan that lists an input twice. -/
def repeatedInput : Json :=
  .obj [("operators", .arr [.str "SCAN"]),
    ("nodes", .arr [.obj [("id", .str "scan"), ("operator", .str "SCAN"), ("inputs", .arr [.str "row", .str "row"]),
      ("outputs", .arr [.str "table"])]])]

theorem repeatedInput_named : ¬ DependsUnnamed repeatedInput := by
  rintro ⟨members, operators, edges, nodes, hplan, -, -, hnodes, -, node, hlast, -⟩
  obtain rfl := Json.obj.inj hplan
  obtain rfl := Option.some.inj hnodes
  cases hlast

theorem repeatedInput_checked :
    ∃ errors, validatePlan filledOrder textOf repeatedInput = .ok errors ∧ (errors = [] ↔ WellFormedPlan repeatedInput) :=
  validatePlan_ok filledOrder textOf repeatedInput repeatedInput_named

/-- The plan is sound, and the check finds fault with its inputs. -/
theorem repeatedInput_refused :
    (∃ ns edges, Says repeatedInput ns edges ∧ Sound ns edges) ∧
      validatePlan filledOrder textOf repeatedInput = .ok ["scan has duplicate inputs"] := by
  refine ⟨⟨[⟨"scan", "SCAN", [], ["row", "row"], ["table"]⟩], [], ?_, ?_⟩, rfl⟩
  · exact ⟨_, [_], rfl, rfl, rfl, rfl,
      .cons ⟨rfl, by decide, rfl, by decide, ⟨rfl, by decide⟩, ⟨rfl, by decide⟩, ⟨rfl, by decide⟩⟩ .nil⟩
  · have hnone : ∀ d k, ¬ Depends [⟨"scan", "SCAN", [], ["row", "row"], ["table"]⟩] d k := by
      rintro d k ⟨n, hn, -, hd⟩
      obtain rfl := List.mem_singleton.mp hn
      cases hd
    refine ⟨by simp, .nil, fun d k => ⟨fun h => (by cases h), fun h => absurd h (hnone d k)⟩, by simp, by simp, ?_, ?_, by simp, by simp⟩
    · intro k hcycle
      obtain ⟨j, hstep, -⟩ := Relation.TransGen.head'_iff.mp hcycle
      exact hnone k j hstep
    · intro a ha b hb
      have hab : a = b := by
        rw [List.mem_singleton.mp ha, List.mem_singleton.mp hb]
      rw [hab]

end DataNexus.Evals
