/-
  DataNexus.SemanticCore.Safety — `validate_sqg` fails only in its own way.

  Every lookup of the loop is one that a model validator has checked: of an input among the
  nodes before, of a column among the outputs of that input, of a field of the ontology. The
  invariant (`Covers`) is that of every node so far, all outputs have been kept.

  - `Checked`: what the validator of the graph says of a node.
  - `propagate_ok`: whatever the node's kind, its outputs are found where they come from.
  - `validateSqg_own`: it returns, or raises `SemanticValidationError`.
-/

import DataNexus.Lib.Dict
import DataNexus.Lib.Keyed
import DataNexus.SemanticCore.Validation

namespace DataNexus.SemanticCore

open Lib

/-! ## Raising nothing else -/

/-- What is raised, if anything, is a `SemanticValidationError`. -/
def OwnFailure {α : Type} (x : Except PythonError α) : Prop := ∀ e, x = .error e → ∃ message, e = .semanticValidation message

namespace OwnFailure

variable {α β : Type}

theorem of_ok {x : Except PythonError α} {a : α} (h : x = .ok a) : OwnFailure x := by
  intro e he
  rw [h] at he
  cases he

theorem invalidIf (condition : Bool) (message : String) : OwnFailure (invalidIf condition message) := by
  intro e he
  exact ⟨message, (refuseIf_eq_error.mp he).2.symm⟩

theorem bind {x : Except PythonError α} {f : α → Except PythonError β} (hx : OwnFailure x)
    (hf : ∀ a, x = .ok a → OwnFailure (f a)) : OwnFailure (x >>= f) := by
  intro e he
  rcases bind_eq_error.mp he with he | ⟨a, ha, he⟩
  · exact hx e he
  · exact hf a ha e he

theorem bind_of_ok {x : Except PythonError α} {a : α} {f : α → Except PythonError β} (hx : x = .ok a) (hf : OwnFailure (f a)) :
    OwnFailure (x >>= f) := by
  rw [hx]
  exact hf

theorem forM {xs : List α} {f : α → Except PythonError Unit} (h : ∀ x ∈ xs, OwnFailure (f x)) : OwnFailure (forM xs f) := by
  induction xs with
  | nil => exact of_ok rfl
  | cons x xs ih =>
    rw [List.forM_cons]
    exact bind (h x List.mem_cons_self) fun _ _ => ih fun y hy => h y (List.mem_cons_of_mem _ hy)

end OwnFailure

/-! ## Lookups that succeed -/

theorem item_ok {β : Type} {d : List (String × β)} {key : String} (h : key ∈ d.map (·.1)) : ∃ b, item d key = .ok b := by
  obtain ⟨b, hb⟩ := Option.isSome_iff_exists.mp (Dict.lookup_isSome.mpr h)
  exact ⟨b, by simp [item, hb]⟩

theorem item_eq_ok {β : Type} {d : List (String × β)} {key : String} {b : β} : item d key = .ok b ↔ d.lookup key = some b := by
  unfold item
  cases d.lookup key <;> simp

theorem firstOf_ok {outputs : List OutputField} {name : String} (h : name ∈ outputs.map (·.name)) :
    ∃ output, firstOf outputs (·.name == name) = .ok output := by
  obtain ⟨output, hmem, rfl⟩ := List.mem_map.mp h
  have hsome : (outputs.find? (·.name == output.name)).isSome = true := List.find?_isSome.mpr ⟨output, hmem, by simp⟩
  obtain ⟨found, hfound⟩ := Option.isSome_iff_exists.mp hsome
  exact ⟨found, by simp [firstOf, hfound]⟩

theorem get_ok {outputs : Outputs} {name : String} (h : name ∈ outputs.map (·.name)) : ∃ output, outputs.get name = .ok output := by
  obtain ⟨output, hmem, rfl⟩ := List.mem_map.mp h
  have hsome : (List.find? (·.name == output.name) outputs).isSome = true := List.find?_isSome.mpr ⟨output, hmem, by simp⟩
  obtain ⟨found, hfound⟩ := Option.isSome_iff_exists.mp hsome
  exact ⟨found, by simp [Outputs.get, hfound]⟩

theorem mapM_ok {α β : Type} (xs : List α) (f : α → Except PythonError β) (h : ∀ x ∈ xs, ∃ y, f x = .ok y) :
    ∃ ys, xs.mapM f = .ok ys := by
  induction xs with
  | nil => exact ⟨[], rfl⟩
  | cons x xs ih =>
    obtain ⟨y, hy⟩ := h x List.mem_cons_self
    obtain ⟨ys, hys⟩ := ih fun z hz => h z (List.mem_cons_of_mem _ hz)
    exact ⟨y :: ys, by simp [List.mapM_cons, hy, hys, bind, Except.bind, pure, Except.pure]⟩

/-- The entries that a loop makes, one for each element, under its key. -/
theorem mapM_keys {α β : Type} (xs : List α) (key : α → String) (f : α → Except PythonError (String × β))
    (h : ∀ x ∈ xs, ∃ b, f x = .ok (key x, b)) : ∃ ys, xs.mapM f = .ok ys ∧ ys.map (·.1) = xs.map key := by
  induction xs with
  | nil => exact ⟨[], rfl, rfl⟩
  | cons x xs ih =>
    obtain ⟨b, hb⟩ := h x List.mem_cons_self
    obtain ⟨ys, hys, hkeys⟩ := ih fun z hz => h z (List.mem_cons_of_mem _ hz)
    exact ⟨(key x, b) :: ys, by simp [List.mapM_cons, hb, hys, bind, Except.bind, pure, Except.pure], by simp [hkeys]⟩

theorem dictOf_ok {β : Type} (names : List String) (value : String → Except PythonError β)
    (h : ∀ name ∈ names, ∃ b, value name = .ok b) :
    ∃ d, dictOf names value = .ok d ∧ d.map (·.1) = names := by
  have hentries : ∀ name ∈ names, ∃ b, (do return (name, ← value name) : Except PythonError (String × β)) = .ok (name, b) := by
    intro name hname
    obtain ⟨b, hb⟩ := h name hname
    exact ⟨b, by rw [hb]; rfl⟩
  obtain ⟨d, hd, hkeys⟩ := mapM_keys names id _ hentries
  exact ⟨d, hd, by simpa using hkeys⟩

/-! ## What the validator of the graph has checked -/

section

variable (calendar : Calendar)

/-- The node's inputs are nodes before it, and its outputs those of its operator. -/
structure Checked (done : List SQGNode) (node : SQGNode) (parents : List SQGNode) : Prop where
  arity : node.inputs.length = node.params.expectedInputs
  inputs : List.Forall₂ (fun dependency parent => parent ∈ done ∧ parent.id = dependency) node.inputs parents
  operator : validateOperator calendar node (parents.map (·.outputs)) = .ok node.outputNames
  contracts : ∃ contracts, expectedOutputContracts node (parents.map (·.outputs)) = .ok contracts ∧
    ∀ output ∈ node.outputs, checkContract node contracts output = .ok ()

/-- The outputs of the nodes, the last one first. -/
def outputsOf (done : List SQGNode) : List (String × Outputs) := (done.map fun node => (node.id, node.outputs)).reverse

variable {calendar}

theorem mem_of_outputsOf {done : List SQGNode} {id : String} {outputs : Outputs} (h : item (outputsOf done) id = .ok outputs) :
    ∃ node ∈ done, node.id = id ∧ node.outputs = outputs := by
  have hmem := mem_of_lookup (item_eq_ok.mp h)
  obtain ⟨node, hnode, heq⟩ := List.mem_map.mp (List.mem_reverse.mp hmem)
  obtain ⟨rfl, rfl⟩ := Prod.mk.inj heq
  exact ⟨node, hnode, rfl, rfl⟩

theorem checked_of_checkNode {positions : List (String × Nat)} {done : List SQGNode} {index : Nat} {node : SQGNode}
    (h : checkNode calendar positions (outputsOf done) index node = .ok ()) : ∃ parents, Checked calendar done node parents := by
  simp only [checkNode, bind_eq_ok, refuseIf_eq_ok, bne_eq_false_iff_eq] at h
  obtain ⟨_, harity, _, -, outputs, houtputs, expected, hexpected, _, heq, contracts, hcontracts, hcheck⟩ := h
  obtain ⟨parents, hparents, hmap⟩ : ∃ parents : List SQGNode,
      List.Forall₂ (fun dependency parent => parent ∈ done ∧ parent.id = dependency) node.inputs parents ∧
        parents.map (·.outputs) = outputs := by
    have hinputs := mapM_eq_ok.mp houtputs
    generalize node.inputs = inputs at hinputs
    clear houtputs hexpected hcontracts harity
    induction hinputs with
    | nil => exact ⟨[], .nil, rfl⟩
    | cons hfirst _ ih =>
      obtain ⟨parent, hmem, hid, rfl⟩ := mem_of_outputsOf hfirst
      obtain ⟨parents, hparents, rfl⟩ := ih
      exact ⟨parent :: parents, .cons ⟨hmem, hid⟩ hparents, rfl⟩
  subst hmap
  refine ⟨parents, harity, hparents, heq ▸ hexpected, contracts, hcontracts, ?_⟩
  exact forM_eq_ok.mp hcheck

theorem checkNodes_spec {positions : List (String × Nat)} {done nodes : List SQGNode} {index : Nat}
    (h : checkNodes calendar positions (outputsOf done) index nodes = .ok ()) {before after : List SQGNode} {node : SQGNode}
    (hnodes : nodes = before ++ node :: after) : ∃ parents, Checked calendar (done ++ before) node parents := by
  induction before generalizing done nodes index with
  | nil =>
    subst hnodes
    simp only [List.nil_append, checkNodes, bind_eq_ok] at h
    obtain ⟨_, hnode, -⟩ := h
    simpa using checked_of_checkNode hnode
  | cons first before ih =>
    subst hnodes
    simp only [List.cons_append, checkNodes, bind_eq_ok] at h
    obtain ⟨_, -, h⟩ := h
    have hdone : (first.id, first.outputs) :: outputsOf done = outputsOf (done ++ [first]) := by simp [outputsOf]
    rw [hdone] at h
    simpa using ih h rfl

/-- Of every node of an accepted graph, the nodes before it, and that its id is new. -/
theorem SemanticQueryGraph.Accepted.checked {sqg : SemanticQueryGraph} (h : sqg.Accepted calendar) {before after : List SQGNode}
    {node : SQGNode} (hnodes : sqg.nodes = before ++ node :: after) :
    node.id ∉ before.map (·.id) ∧ ∃ parents, Checked calendar before node parents := by
  have hgraph := h.graph
  simp only [SemanticQueryGraph.graphIsDeterministic, bind_eq_ok, refuseIf_eq_ok] at hgraph
  obtain ⟨_, hunique, _, -, _, hloop, -⟩ := hgraph
  refine ⟨?_, ?_⟩
  · have hnodup := dedup_length_bne.mp hunique
    rw [SemanticQueryGraph.ids, hnodes, List.map_append, List.map_cons] at hnodup
    intro hmem
    exact (List.disjoint_of_nodup_append hnodup) hmem List.mem_cons_self
  · have hspec : ∃ parents, Checked calendar ([] ++ before) node parents := checkNodes_spec hloop hnodes
    simpa using hspec

theorem requireFields_eq_ok {nodeId : String} {fields available : List String} {u : Unit} :
    requireFields nodeId fields available = .ok u ↔ ∀ field ∈ fields, field ∈ available := by
  simp [requireFields, List.filter_eq_nil_iff]

end

/-! ## What the loop has kept -/

/-- Of every node so far, an entry with all its outputs. -/
def Tracks {β : Type} (done : List SQGNode) (d : List (String × List (String × β))) : Prop :=
  ∀ node ∈ done, ∃ entries, d.lookup node.id = some entries ∧ ∀ name ∈ node.outputNames, name ∈ entries.map (·.1)

/-- What the loop has kept of the nodes so far. -/
structure Covers (done : List SQGNode) (walked : Walked) : Prop where
  entities : ∀ node ∈ done, node.id ∈ walked.entities.map (·.1)
  lineage : Tracks done walked.lineage
  bindings : Tracks done walked.bindings

theorem Tracks.add {β : Type} {done : List SQGNode} {d : List (String × List (String × β))} (h : Tracks done d) {node : SQGNode}
    (hfresh : node.id ∉ done.map (·.id)) {entries : List (String × β)} (hentries : ∀ name ∈ node.outputNames, name ∈ entries.map (·.1)) :
    Tracks (done ++ [node]) ((node.id, entries) :: d) := by
  intro other hother
  rcases List.mem_append.mp hother with hother | hother
  · have hne : other.id ≠ node.id := fun heq => hfresh (heq ▸ List.mem_map_of_mem hother)
    rw [lookup_cons_ne hne]
    exact h other hother
  · obtain rfl := List.mem_singleton.mp hother
    exact ⟨entries, by simp, hentries⟩

theorem Covers.add {done : List SQGNode} {walked : Walked} (h : Covers done walked) {node : SQGNode}
    (hfresh : node.id ∉ done.map (·.id)) {entities : List String} {lineage : Lineage} {bindings : Bindings}
    (hlineage : ∀ name ∈ node.outputNames, name ∈ lineage.map (·.1)) (hbindings : ∀ name ∈ node.outputNames, name ∈ bindings.map (·.1)) :
    Covers (done ++ [node]) (walked.add node.id entities lineage bindings) where
  entities := by
    intro other hother
    rcases List.mem_append.mp hother with hother | hother
    · exact List.mem_cons_of_mem _ (h.entities other hother)
    · obtain rfl := List.mem_singleton.mp hother
      exact List.mem_cons_self
  lineage := h.lineage.add hfresh hlineage
  bindings := h.bindings.add hfresh hbindings

/-- The names of a node's outputs are among the keys. -/
def Named {β : Type} (parent : SQGNode) (entries : List (String × β)) : Prop :=
  ∀ name ∈ parent.outputNames, name ∈ entries.map (·.1)

theorem Tracks.inputs {β : Type} {done : List SQGNode} {d : List (String × List (String × β))} (h : Tracks done d)
    {inputs : List String} {parents : List SQGNode}
    (hparents : List.Forall₂ (fun dependency parent => parent ∈ done ∧ parent.id = dependency) inputs parents) :
    ∃ found, inputs.mapM (item d) = .ok found ∧ List.Forall₂ Named parents found := by
  induction hparents with
  | nil => exact ⟨[], rfl, .nil⟩
  | @cons dependency parent _ _ hfirst _ ih =>
    obtain ⟨hmem, rfl⟩ := hfirst
    obtain ⟨entries, hentries, hnames⟩ := h parent hmem
    obtain ⟨found, hfound, hrest⟩ := ih
    have hitem : item d parent.id = .ok entries := item_eq_ok.mpr hentries
    exact ⟨entries :: found, by simp [List.mapM_cons, hitem, hfound, bind, Except.bind, pure, Except.pure], .cons hnames hrest⟩

/-! ## Outputs are found where they come from -/

section

variable {calendar : Calendar} {ontology : Ontology} {done : List SQGNode} {node : SQGNode} {parents : List SQGNode}

theorem Checked.one (h : Checked calendar done node parents) (hone : node.params.expectedInputs = 1) : ∃ parent, parents = [parent] := by
  have hlength := h.inputs.length_eq
  rw [h.arity, hone] at hlength
  exact List.length_eq_one_iff.mp hlength.symm

theorem Checked.two (h : Checked calendar done node parents) (htwo : node.params.expectedInputs = 2) :
    ∃ left right, parents = [left, right] := by
  have hlength := h.inputs.length_eq
  rw [h.arity, htwo] at hlength
  exact List.length_eq_two.mp hlength.symm

@[simp] theorem nth_cons_zero {α : Type} (x : α) (xs : List α) : nth (x :: xs) 0 = .ok x := rfl

@[simp] theorem nth_cons_one {α : Type} (x y : α) (xs : List α) : nth (x :: y :: xs) 1 = .ok y := rfl

/-- The operators that pass their input's columns on, all of them or some. -/
inductive PassesOn : NodeParams → Prop
  | filter (predicate : Predicate) : PassesOn (.filter predicate)
  | sort (keys : List SortKey) : PassesOn (.sort keys)
  | project (fields : List String) : PassesOn (.project fields)

theorem Checked.select (h : Checked calendar done node parents) {entity : String} {fields : List String}
    (hparams : node.params = .select entity fields) : node.outputNames = fields ∧ parents = [] := by
  refine ⟨?_, ?_⟩
  · have hnames := h.operator
    simp only [validateOperator, hparams, pure_eq_ok] at hnames
    exact hnames.symm
  · have hlength := h.inputs.length_eq
    rw [h.arity, hparams] at hlength
    exact List.length_eq_zero_iff.mp hlength.symm

theorem Checked.passesOn (h : Checked calendar done node parents) (hparams : PassesOn node.params) :
    ∃ parent, parents = [parent] ∧ ∀ name ∈ node.outputNames, name ∈ parent.outputNames := by
  have hone : node.params.expectedInputs = 1 := by
    cases hp : node.params <;> rw [hp] at hparams <;> first | rfl | cases hparams
  obtain ⟨parent, rfl⟩ := h.one hone
  refine ⟨parent, rfl, ?_⟩
  have hnames := h.operator
  cases hp : node.params with
  | filter predicate =>
    simp only [validateOperator, hp, List.map_cons, nth_cons_zero, bind_eq_ok, pure_eq_ok, Except.ok.injEq] at hnames
    obtain ⟨_, rfl, _, -, _, -, _, -, hnames⟩ := hnames
    intro name hname
    rwa [← hnames] at hname
  | sort keys =>
    simp only [validateOperator, hp, List.map_cons, nth_cons_zero, bind_eq_ok, pure_eq_ok, Except.ok.injEq] at hnames
    obtain ⟨_, rfl, _, -, hnames⟩ := hnames
    intro name hname
    rwa [← hnames] at hname
  | project fields =>
    simp only [validateOperator, hp, List.map_cons, nth_cons_zero, bind_eq_ok, pure_eq_ok, Except.ok.injEq, requireFields_eq_ok] at hnames
    obtain ⟨_, rfl, _, hfields, hnames⟩ := hnames
    exact fun name hname => hfields name (hnames ▸ hname)
  | _ =>
    rw [hp] at hparams
    cases hparams

theorem Checked.aggregate (h : Checked calendar done node parents) {params : AggregateParams} (hparams : node.params = .aggregate params) :
    ∃ parent, parents = [parent] ∧ (∀ field ∈ params.groupBy, field ∈ parent.outputNames) ∧
      (∀ measure ∈ params.measures, measure.source ∈ parent.outputNames) ∧
      node.outputNames = params.groupBy ++ params.measures.map (·.name) ∧ node.outputNames.Nodup := by
  obtain ⟨parent, rfl⟩ := h.one (by rw [hparams]; rfl)
  have hnames := h.operator
  simp only [validateOperator, hparams, List.map_cons, nth_cons_zero, bind_eq_ok, pure_eq_ok, Except.ok.injEq, requireFields_eq_ok,
    requireDistinct, refuseIf_eq_ok, dedup_length_bne] at hnames
  obtain ⟨_, rfl, _, hfields, _, hnodup, hnames⟩ := hnames
  refine ⟨parent, rfl, ?_, ?_, hnames.symm, hnames ▸ hnodup⟩
  · exact fun field hfield => hfields field (List.mem_append_left _ hfield)
  · exact fun measure hmeasure => hfields measure.source (List.mem_append_right _ (List.mem_map_of_mem hmeasure))

theorem Checked.pivot (h : Checked calendar done node parents) {params : PivotParams} (hparams : node.params = .pivot params) :
    ∃ parent, parents = [parent] ∧ (∀ field ∈ params.index, field ∈ parent.outputNames) ∧ params.column ∈ parent.outputNames ∧
      params.value ∈ parent.outputNames ∧ node.outputNames = params.index ++ params.expectedColumns ∧ node.outputNames.Nodup := by
  obtain ⟨parent, rfl⟩ := h.one (by rw [hparams]; rfl)
  have hnames := h.operator
  simp only [validateOperator, hparams, List.map_cons, nth_cons_zero, bind_eq_ok, pure_eq_ok, Except.ok.injEq, requireFields_eq_ok,
    requireDistinct, refuseIf_eq_ok, dedup_length_bne] at hnames
  obtain ⟨_, rfl, _, hfields, _, hnodup, hnames⟩ := hnames
  refine ⟨parent, rfl, ?_, hfields _ (by simp), hfields _ (by simp), hnames.symm, hnames ▸ hnodup⟩
  exact fun field hfield => hfields field (List.mem_append_left _ hfield)

theorem Checked.derive (h : Checked calendar done node parents) {expressions : List DeriveExpression}
    (hparams : node.params = .derive expressions) :
    ∃ parent, parents = [parent] ∧ (∀ expression ∈ expressions, ∀ operand ∈ expression.operands, ∀ field,
        operand.field? = some field → field ∈ parent.outputNames) ∧
      node.outputNames = parent.outputNames ++ expressions.map (·.name) ∧ (expressions.map (·.name)).Nodup ∧
      ∀ name ∈ parent.outputNames, name ∉ expressions.map (·.name) := by
  obtain ⟨parent, rfl⟩ := h.one (by rw [hparams]; rfl)
  have hnames := h.operator
  simp only [validateOperator, hparams, List.map_cons, nth_cons_zero, bind_eq_ok, pure_eq_ok, Except.ok.injEq, refuseIf_eq_ok,
    Bool.or_eq_false_iff, dedup_length_bne] at hnames
  obtain ⟨_, rfl, _, ⟨hnodup, hnew⟩, _, hfields, hnames⟩ := hnames
  refine ⟨parent, rfl, ?_, hnames.symm, hnodup, ?_⟩
  · intro expression hexpression operand hoperand field hfield
    have hexpressions := forM_eq_ok.mp hfields expression hexpression
    exact requireFields_eq_ok.mp hexpressions field (List.mem_filterMap.mpr ⟨operand, hoperand, hfield⟩)
  · intro name hname hderived
    have hany := List.any_eq_false.mp hnew name hderived
    exact hany (List.contains_iff_mem.mpr hname)

theorem Checked.join (h : Checked calendar done node parents) {params : JoinParams} (hparams : node.params = .join params) :
    ∃ left right, parents = [left, right] ∧ params.leftKey ∈ left.outputNames ∧ params.rightKey ∈ right.outputNames ∧
      (∀ projection ∈ params.fields, ∃ parent, nth [left, right] projection.source.input = .ok parent ∧
        projection.field ∈ parent.outputNames) ∧
      node.outputNames = params.fields.map (·.name) ∧ node.outputNames.Nodup := by
  obtain ⟨left, right, rfl⟩ := h.two (by rw [hparams]; rfl)
  have hnames := h.operator
  simp only [validateOperator, hparams, List.map_cons, List.map_nil, nth_cons_zero, nth_cons_one, bind_eq_ok, pure_eq_ok,
    Except.ok.injEq, requireFields_eq_ok, requireDistinct, refuseIf_eq_ok, dedup_length_bne] at hnames
  obtain ⟨_, rfl, _, hleft, _, rfl, _, hright, _, hprojections, _, hnodup, hnames⟩ := hnames
  refine ⟨left, right, rfl, hleft _ (by simp), hright _ (by simp), ?_, hnames.symm, hnames ▸ hnodup⟩
  intro projection hprojection
  have hchecked := forM_eq_ok.mp hprojections projection hprojection
  simp only [bind_eq_ok, requireFields_eq_ok] at hchecked
  obtain ⟨outputs, houtputs, hfield⟩ := hchecked
  cases hside : projection.source with
  | left =>
    rw [hside] at houtputs
    obtain rfl := Except.ok.inj houtputs
    exact ⟨left, rfl, hfield _ (by simp)⟩
  | right =>
    rw [hside] at houtputs
    obtain rfl := Except.ok.inj houtputs
    exact ⟨right, rfl, hfield _ (by simp)⟩

theorem Named.found {β : Type} {parent : SQGNode} {entries : List (String × β)} (h : Named parent entries) {name : String}
    (hname : name ∈ parent.outputNames) : ∃ b, item entries name = .ok b := item_ok (h name hname)

theorem Named.one {β : Type} {parent : SQGNode} {found : List (List (String × β))} (h : List.Forall₂ Named [parent] found) :
    ∃ entries, found = [entries] ∧ Named parent entries := by
  obtain ⟨entries, rfl, hentries⟩ := forall₂_singleton h
  exact ⟨entries, rfl, hentries⟩

theorem Named.two {β : Type} {left right : SQGNode} {found : List (List (String × β))} (h : List.Forall₂ Named [left, right] found) :
    ∃ l r, found = [l, r] ∧ Named left l ∧ Named right r := by
  obtain ⟨l, rest, hl, hrest, rfl⟩ := List.forall₂_cons_left_iff.mp h
  obtain ⟨r, rfl, hr⟩ := forall₂_singleton hrest
  exact ⟨l, r, rfl, hl, hr⟩

/-- The side a projection reads is there, with the field. -/
theorem Named.side {β : Type} {left right parent : SQGNode} {l r : List (String × β)} (hl : Named left l) (hr : Named right r)
    {side : JoinSide} (hparent : nth [left, right] side.input = .ok parent) {field : String} (hfield : field ∈ parent.outputNames) :
    ∃ entries b, nth [l, r] side.input = .ok entries ∧ item entries field = .ok b := by
  cases side with
  | left =>
    obtain rfl := Except.ok.inj hparent
    obtain ⟨b, hb⟩ := hl.found hfield
    exact ⟨l, b, rfl, hb⟩
  | right =>
    obtain rfl := Except.ok.inj hparent
    obtain ⟨b, hb⟩ := hr.found hfield
    exact ⟨r, b, rfl, hb⟩

theorem filterMap_keys {β γ : Type} {outputs : List OutputField} {entries : List (String × β)} {value : OutputField → β → γ} :
    ((outputs.filterMap fun output => (entries.lookup output.name).map fun b => (output.name, value output b)).map (·.1)) =
      (outputs.filter fun output => (entries.lookup output.name).isSome).map (·.name) := by
  induction outputs with
  | nil => rfl
  | cons output outputs ih =>
    cases hlookup : entries.lookup output.name with
    | none => simp [hlookup, ih]
    | some b => simp [hlookup, ih]

/-- A column that a DERIVE passes on has an entry. -/
theorem mem_filterMap_keys {β γ : Type} {outputs : List OutputField} {entries : List (String × β)} {value : OutputField → β → γ}
    {name : String} (hname : name ∈ outputs.map (·.name)) (hentry : name ∈ entries.map (·.1)) :
    name ∈ (outputs.filterMap fun output => (entries.lookup output.name).map fun b => (output.name, value output b)).map (·.1) := by
  rw [filterMap_keys]
  obtain ⟨output, houtput, rfl⟩ := List.mem_map.mp hname
  exact List.mem_map_of_mem (List.mem_filter.mpr ⟨houtput, Dict.lookup_isSome.mpr hentry⟩)

/-- The node's outputs are found: its lineage and its bindings name every column it gives. -/
def Propagates (ontology : Ontology) (node : SQGNode) (lineages : List Lineage) (bindings : List Bindings) : Prop :=
  ∃ lineage bound, propagate ontology node lineages bindings = .ok (lineage, bound) ∧ Named node lineage ∧ Named node bound

/-- FILTER, SORT and PROJECT read each output under its own name. -/
theorem propagates_passesOn (h : Checked calendar done node parents) (hparams : PassesOn node.params)
    {lineages : List Lineage} (hlineages : List.Forall₂ Named parents lineages) {bindings : List Bindings}
    (hbindings : List.Forall₂ Named parents bindings) : Propagates ontology node lineages bindings := by
  obtain ⟨parent, rfl, hnames⟩ := h.passesOn hparams
  obtain ⟨fromLineage, rfl, hl⟩ := Named.one hlineages
  obtain ⟨fromBindings, rfl, hb⟩ := Named.one hbindings
  obtain ⟨lineage, hlineage, hlkeys⟩ := mapM_keys node.outputs (·.name)
    (fun output => do return (output.name, ← item (← nth [fromLineage] 0) output.name)) (by
      intro output houtput
      obtain ⟨sources, hsources⟩ := hl.found (hnames _ (List.mem_map_of_mem houtput))
      exact ⟨sources, by simp [hsources, bind, Except.bind, pure, Except.pure]⟩)
  obtain ⟨bound, hbound, hbkeys⟩ := mapM_keys node.outputs (·.name)
    (fun output => do
      let bound ← item (← nth [fromBindings] 0) output.name
      return (output.name, withEffectiveNullability bound output.nullable)) (by
      intro output houtput
      obtain ⟨found, hfound⟩ := hb.found (hnames _ (List.mem_map_of_mem houtput))
      exact ⟨withEffectiveNullability found output.nullable, by simp [hfound, bind, Except.bind, pure, Except.pure]⟩)
  refine ⟨lineage, bound, ?_, fun name hname => hlkeys ▸ hname, fun name hname => hbkeys ▸ hname⟩
  cases hp : node.params <;> rw [hp] at hparams <;> first
    | cases hparams; done
    | (simp only [propagate, hp, bind_eq_ok, pure_eq_ok]; exact ⟨lineage, hlineage, bound, hbound, rfl⟩)

/-- AGGREGATE reads the grouped columns from the input and the measures from their metrics. -/
theorem propagates_aggregate (h : Checked calendar done node parents) {params : AggregateParams} (hp : node.params = .aggregate params)
    (hmetrics : ∀ measure ∈ params.measures, measure.metric ∈ ontology.metricTable.map (·.1))
    {lineages : List Lineage} (hlineages : List.Forall₂ Named parents lineages) {bindings : List Bindings}
    (hbindings : List.Forall₂ Named parents bindings) : Propagates ontology node lineages bindings := by
  obtain ⟨parent, rfl, hgroup, -, hnames, -⟩ := h.aggregate hp
  obtain ⟨fromLineage, rfl, hl⟩ := Named.one hlineages
  obtain ⟨fromBindings, rfl, hb⟩ := Named.one hbindings
  obtain ⟨lineage, hlineage, hlkeys⟩ := dictOf_ok params.groupBy
    (fun field => do item (← nth [fromLineage] 0) field) fun field hfield => hl.found (hgroup field hfield)
  obtain ⟨bound, hbound, hbkeys⟩ := dictOf_ok params.groupBy
    (fun field => do
      let bound ← item (← nth [fromBindings] 0) field
      let output ← firstOf node.outputs (·.name == field)
      return withEffectiveNullability bound output.nullable) (by
      intro field hfield
      obtain ⟨found, hfound⟩ := hb.found (hgroup field hfield)
      have hmem : field ∈ node.outputNames := by
        rw [hnames]
        exact List.mem_append_left _ hfield
      obtain ⟨output, houtput⟩ := firstOf_ok hmem
      exact ⟨withEffectiveNullability found output.nullable, by simp [hfound, houtput, bind, Except.bind, pure, Except.pure]⟩)
  obtain ⟨measured, hmeasured, hmkeys⟩ := mapM_keys params.measures (·.name)
    (fun measure => do
      let metric ← item ontology.metricTable measure.metric
      return (measure.name, [(metric.entity, metric.field)])) (by
      intro measure hmeasure
      obtain ⟨metric, hmetric⟩ := item_ok (hmetrics measure hmeasure)
      exact ⟨[(metric.entity, metric.field)], by simp [hmetric, bind, Except.bind, pure, Except.pure]⟩)
  refine ⟨measured ++ lineage, params.measures.map (fun measure => (measure.name, [])) ++ bound, ?_, ?_, ?_⟩
  · simp only [propagate, hp, bind_eq_ok, pure_eq_ok]
    exact ⟨lineage, hlineage, bound, hbound, measured, hmeasured, rfl⟩
  · intro name hname
    rw [hnames, List.mem_append] at hname
    rw [List.map_append, hmkeys, hlkeys, List.mem_append]
    exact hname.symm
  · intro name hname
    rw [hnames, List.mem_append] at hname
    rw [List.map_append, hbkeys, List.map_map, List.mem_append]
    exact hname.symm

/-- PIVOT reads the index from the input; a new column comes from the value and the column. -/
theorem propagates_pivot (h : Checked calendar done node parents) {params : PivotParams} (hp : node.params = .pivot params)
    {lineages : List Lineage} (hlineages : List.Forall₂ Named parents lineages) {bindings : List Bindings}
    (hbindings : List.Forall₂ Named parents bindings) : Propagates ontology node lineages bindings := by
  obtain ⟨parent, rfl, hindex, hcolumn, hvalue, hnames, -⟩ := h.pivot hp
  obtain ⟨fromLineage, rfl, hl⟩ := Named.one hlineages
  obtain ⟨fromBindings, rfl, hb⟩ := Named.one hbindings
  obtain ⟨value, hvalue⟩ := hl.found hvalue
  obtain ⟨column, hcolumn⟩ := hl.found hcolumn
  obtain ⟨lineage, hlineage, hlkeys⟩ := dictOf_ok params.index
    (fun field => do item (← nth [fromLineage] 0) field) fun field hfield => hl.found (hindex field hfield)
  obtain ⟨bound, hbound, hbkeys⟩ := dictOf_ok params.index
    (fun field => do item (← nth [fromBindings] 0) field) fun field hfield => hb.found (hindex field hfield)
  refine ⟨params.expectedColumns.map (fun field => (field, (value ++ column).dedup)) ++ lineage,
    params.expectedColumns.map (fun field => (field, [])) ++ bound, ?_, ?_, ?_⟩
  · simp only [propagate, hp, bind_eq_ok, pure_eq_ok]
    exact ⟨_, rfl, value, hvalue, _, rfl, column, hcolumn, lineage, hlineage, bound, hbound, rfl⟩
  · intro name hname
    rw [hnames, List.mem_append] at hname
    rw [List.map_append, hlkeys, List.map_map, List.mem_append]
    exact hname.symm.imp (fun h => by simpa using h) id
  · intro name hname
    rw [hnames, List.mem_append] at hname
    rw [List.map_append, hbkeys, List.map_map, List.mem_append]
    exact hname.symm.imp (fun h => by simpa using h) id

/-- DERIVE passes its input on and reads each expression's operands from it. -/
theorem propagates_derive (h : Checked calendar done node parents) {expressions : List DeriveExpression}
    (hp : node.params = .derive expressions)
    {lineages : List Lineage} (hlineages : List.Forall₂ Named parents lineages) {bindings : List Bindings}
    (hbindings : List.Forall₂ Named parents bindings) : Propagates ontology node lineages bindings := by
  obtain ⟨parent, rfl, hoperands, hnames, -, -⟩ := h.derive hp
  obtain ⟨fromLineage, rfl, hl⟩ := Named.one hlineages
  obtain ⟨fromBindings, rfl, hb⟩ := Named.one hbindings
  obtain ⟨derived, hderived, hdkeys⟩ := mapM_keys expressions (·.name)
    (fun expression => do
      let sources ← (expression.operands.filterMap (·.field?)).mapM (item fromLineage)
      return (expression.name, sources.flatten.dedup)) (by
      intro expression hexpression
      obtain ⟨sources, hsources⟩ := mapM_ok (expression.operands.filterMap (·.field?)) (item fromLineage) (by
        intro field hfield
        obtain ⟨operand, hoperand, hfield⟩ := List.mem_filterMap.mp hfield
        exact hl.found (hoperands expression hexpression operand hoperand field hfield))
      exact ⟨sources.flatten.dedup, by simp [hsources, bind, Except.bind, pure, Except.pure]⟩)
  refine ⟨derived ++ node.outputs.filterMap fun output =>
      (fromLineage.lookup output.name).map fun sources => (output.name, sources),
    expressions.map (fun expression => (expression.name, [])) ++ node.outputs.filterMap fun output =>
      (fromBindings.lookup output.name).map fun bound => (output.name, withEffectiveNullability bound output.nullable), ?_, ?_, ?_⟩
  · simp only [propagate, hp, bind_eq_ok, pure_eq_ok]
    exact ⟨_, rfl, _, rfl, derived, hderived, rfl⟩
  · intro name hname
    have hsplit : name ∈ parent.outputNames ∨ name ∈ expressions.map (·.name) := by
      rwa [hnames, List.mem_append] at hname
    rw [List.map_append, hdkeys, List.mem_append]
    exact hsplit.symm.imp id fun hparent => mem_filterMap_keys hname (hl name hparent)
  · intro name hname
    have hsplit : name ∈ parent.outputNames ∨ name ∈ expressions.map (·.name) := by
      rwa [hnames, List.mem_append] at hname
    rw [List.map_append, List.map_map, List.mem_append]
    exact hsplit.symm.imp id fun hparent => mem_filterMap_keys hname (hb name hparent)

/-- JOIN reads each projection from the side it names. -/
theorem propagates_join (h : Checked calendar done node parents) {params : JoinParams} (hp : node.params = .join params)
    {lineages : List Lineage} (hlineages : List.Forall₂ Named parents lineages) {bindings : List Bindings}
    (hbindings : List.Forall₂ Named parents bindings) : Propagates ontology node lineages bindings := by
  obtain ⟨left, right, rfl, -, -, hprojections, hnames, -⟩ := h.join hp
  obtain ⟨ll, rl, rfl, hll, hrl⟩ := Named.two hlineages
  obtain ⟨lb, rb, rfl, hlb, hrb⟩ := Named.two hbindings
  obtain ⟨lineage, hlineage, hlkeys⟩ := mapM_keys params.fields (·.name)
    (fun projection => do
      return (projection.name, ← item (← nth [ll, rl] projection.source.input) projection.field)) (by
      intro projection hprojection
      obtain ⟨parent, hparent, hfield⟩ := hprojections projection hprojection
      obtain ⟨entries, sources, hentries, hsources⟩ := hll.side hrl hparent hfield
      exact ⟨sources, by simp [hentries, hsources, bind, Except.bind, pure, Except.pure]⟩)
  obtain ⟨bound, hbound, hbkeys⟩ := mapM_keys params.fields (·.name)
    (fun projection => do
      let bound ← item (← nth [lb, rb] projection.source.input) projection.field
      let output ← Outputs.get node.outputs projection.name
      return (projection.name, withEffectiveNullability bound output.nullable)) (by
      intro projection hprojection
      obtain ⟨parent, hparent, hfield⟩ := hprojections projection hprojection
      obtain ⟨entries, found, hentries, hfound⟩ := hlb.side hrb hparent hfield
      have hmem : projection.name ∈ node.outputNames := by
        rw [hnames]
        exact List.mem_map_of_mem hprojection
      obtain ⟨output, houtput⟩ := get_ok hmem
      exact ⟨withEffectiveNullability found output.nullable, by simp [hentries, hfound, houtput, bind, Except.bind, pure, Except.pure]⟩)
  refine ⟨lineage, bound, ?_, fun name hname => ?_, fun name hname => ?_⟩
  · simp only [propagate, hp, bind_eq_ok, pure_eq_ok]
    exact ⟨lineage, hlineage, bound, hbound, rfl⟩
  · rw [hlkeys]
    exact hnames ▸ hname
  · rw [hbkeys]
    exact hnames ▸ hname

/-- The outputs of a checked node are found, once the metrics it names are. -/
theorem propagate_ok (h : Checked calendar done node parents) (hselect : ∀ entity fields, node.params ≠ .select entity fields)
    (hmetrics : ∀ params, node.params = .aggregate params → ∀ measure ∈ params.measures,
      measure.metric ∈ ontology.metricTable.map (·.1))
    {lineages : List Lineage} (hlineages : List.Forall₂ Named parents lineages) {bindings : List Bindings}
    (hbindings : List.Forall₂ Named parents bindings) : Propagates ontology node lineages bindings := by
  cases hp : node.params with
  | select entity fields => exact (hselect entity fields hp).elim
  | filter predicate => exact propagates_passesOn h (hp ▸ .filter predicate) hlineages hbindings
  | sort keys => exact propagates_passesOn h (hp ▸ .sort keys) hlineages hbindings
  | project fields => exact propagates_passesOn h (hp ▸ .project fields) hlineages hbindings
  | aggregate params => exact propagates_aggregate h hp (hmetrics params hp) hlineages hbindings
  | pivot params => exact propagates_pivot h hp hlineages hbindings
  | derive expressions => exact propagates_derive h hp hlineages hbindings
  | join params => exact propagates_join h hp hlineages hbindings

end

/-! ## The ontology -/

theorem lookup_map {α β : Type} {xs : List α} {key : α → String} {value : α → β} {k : String} :
    (xs.map fun x => (key x, value x)).lookup k = (xs.find? (key · == k)).map value := by
  induction xs with
  | nil => rfl
  | cons x xs ih =>
    rw [List.map_cons, List.lookup_cons, List.find?_cons]
    by_cases h : key x = k
    · subst h
      simp
    · have hback : (k == key x) = false := beq_false_of_ne (Ne.symm h)
      simp only [hback, beq_false_of_ne h, ih]

section

variable {ontology : Ontology}

/-- The field a metric is defined on is there, and its aggregation supports the type. -/
theorem Ontology.Accepted.metric (h : ontology.Accepted) {metric : Metric} (hmetric : metric ∈ ontology.metrics) :
    ∃ fields field type, item ontology.fieldTable metric.entity = .ok fields ∧ item fields metric.field = .ok field ∧
      aggregationOutputType metric.aggregation field.dataType = .ok type := by
  have hconcepts := h.concepts
  simp only [Ontology.conceptsAreConsistent, bind_eq_ok] at hconcepts
  obtain ⟨_, -, _, -, _, -, _, -, _, hmetrics, -⟩ := hconcepts
  have hcheck := forM_eq_ok.mp hmetrics metric hmetric
  simp only [Ontology.checkMetric, bind_eq_ok] at hcheck
  obtain ⟨_, -, entity, hentity, field, hfield, type, htype, -⟩ := hcheck
  have hfound : ontology.entities.find? (·.id == metric.entity) = some entity := by
    unfold firstOf at hentity
    cases hfind : ontology.entities.find? (·.id == metric.entity) with
    | none => simp [hfind] at hentity
    | some found => simpa [hfind] using hentity
  have hsource : entity.fields.find? (·.id == metric.field) = some field := by
    unfold firstOf at hfield
    cases hfind : entity.fields.find? (·.id == metric.field) with
    | none => simp [hfind] at hfield
    | some found => simpa [hfind] using hfield
  refine ⟨entity.fields.map fun field => (field.id, field), field, type, ?_, ?_, htype⟩
  · rw [item_eq_ok, Ontology.fieldTable, lookup_map, hfound]
    rfl
  · rw [item_eq_ok, lookup_map, hsource]
    rfl

theorem mem_of_metricTable {id : String} {metric : Metric} (h : ontology.metricTable.lookup id = some metric) :
    metric ∈ ontology.metrics := by
  obtain ⟨found, hfound, heq⟩ := List.mem_map.mp (mem_of_lookup h)
  obtain ⟨-, rfl⟩ := Prod.mk.inj heq
  exact hfound

end

/-! ## One round, and the loop -/

section

variable {calendar : Calendar} {ontology : Ontology} {done : List SQGNode} {node : SQGNode} {parents : List SQGNode} {walked : Walked}

theorem checkMeasure_own (hontology : ontology.Accepted) {params : AggregateParams} {inherited : List String}
    {bindings : List Bindings} {measure : MeasureRef} (hsource : ∃ bound, (do item (← nth bindings 0) measure.source) = .ok bound)
    (hname : measure.name ∈ node.outputNames) : OwnFailure (checkMeasure ontology node params inherited bindings measure) := by
  unfold checkMeasure
  split
  · exact .invalidIf _ _
  · rename_i metric hmetric
    obtain ⟨bound, hbound⟩ := hsource
    obtain ⟨fields, field, type, hfields, hfield, htype⟩ := hontology.metric (mem_of_metricTable hmetric)
    obtain ⟨output, houtput⟩ := firstOf_ok hname
    have hsources : sourceBindings bindings metric measure =
        .ok (bound.filter fun binding => matchesSource binding (metric.entity, metric.field)) := by
      obtain ⟨first, hfirst, hitem⟩ := bind_eq_ok.mp hbound
      simp [sourceBindings, hfirst, hitem, bind, Except.bind, pure, Except.pure]
    refine .bind (.invalidIf _ _) fun _ _ => ?_
    refine .bind_of_ok hsources ?_
    refine .bind (.invalidIf _ _) fun _ _ => ?_
    refine .bind (.invalidIf _ _) fun _ _ => ?_
    refine .bind_of_ok houtput ?_
    refine .bind_of_ok hfields ?_
    refine .bind_of_ok hfield ?_
    refine .bind_of_ok htype ?_
    refine .bind (.invalidIf _ _) fun _ _ => ?_
    exact .invalidIf _ _

theorem checkMeasure_metric {params : AggregateParams} {inherited : List String} {bindings : List Bindings} {measure : MeasureRef}
    (h : checkMeasure ontology node params inherited bindings measure = .ok ()) : measure.metric ∈ ontology.metricTable.map (·.1) := by
  unfold checkMeasure at h
  split at h
  · cases h
  · rename_i metric hmetric
    exact List.mem_map_of_mem (mem_of_lookup hmetric)

theorem checkJoin_own {params : JoinParams} {bindings : List Bindings}
    (hleft : ∃ es, (do item walked.entities (← nth node.inputs 0)) = .ok es)
    (hright : ∃ es, (do item walked.entities (← nth node.inputs 1)) = .ok es)
    (hleftKey : ∃ bound, (do item (← nth bindings 0) params.leftKey) = .ok bound)
    (hrightKey : ∃ bound, (do item (← nth bindings 1) params.rightKey) = .ok bound) :
    OwnFailure (checkJoin ontology node params walked bindings) := by
  unfold checkJoin
  split
  · exact .invalidIf _ _
  · obtain ⟨left, hleft⟩ := hleft
    obtain ⟨right, hright⟩ := hright
    obtain ⟨leftKeys, hleftKeys⟩ := hleftKey
    obtain ⟨rightKeys, hrightKeys⟩ := hrightKey
    obtain ⟨_, hleftId, hleft⟩ := bind_eq_ok.mp hleft
    obtain ⟨_, hrightId, hright⟩ := bind_eq_ok.mp hright
    obtain ⟨_, hleftEntries, hleftKeys⟩ := bind_eq_ok.mp hleftKeys
    obtain ⟨_, hrightEntries, hrightKeys⟩ := bind_eq_ok.mp hrightKeys
    refine .bind_of_ok hleftId ?_
    refine .bind_of_ok hleft ?_
    refine .bind_of_ok hrightId ?_
    refine .bind_of_ok hright ?_
    refine .bind (.invalidIf _ _) fun _ _ => ?_
    refine .bind_of_ok hleftEntries ?_
    refine .bind_of_ok hleftKeys ?_
    refine .bind_of_ok hrightEntries ?_
    refine .bind_of_ok hrightKeys ?_
    refine .bind (.invalidIf _ _) fun _ hone => ?_
    have hlengths := refuseIf_eq_ok.mp hone
    simp only [Bool.or_eq_false_iff, bne_eq_false_iff_eq] at hlengths
    obtain ⟨leftBinding, rfl⟩ := List.length_eq_one_iff.mp hlengths.1
    obtain ⟨rightBinding, rfl⟩ := List.length_eq_one_iff.mp hlengths.2
    exact .invalidIf _ _

theorem Covers.entity_inputs (h : Covers done walked) {inputs : List String}
    (hparents : List.Forall₂ (fun dependency parent => parent ∈ done ∧ parent.id = dependency) inputs parents) :
    ∀ dependency ∈ inputs, ∃ es, item walked.entities dependency = .ok es := by
  intro dependency hdependency
  obtain ⟨parent, -, hmem, rfl⟩ := mem_of_forall₂ hparents.flip hdependency
  exact item_ok (h.entities parent hmem)

theorem checkSelected_own {entity : String} {known : List (String × OntologyField)} (hknown : item ontology.fieldTable entity = .ok known)
    {output : OutputField} (houtput : output.name ∈ known.map (·.1)) : OwnFailure (checkSelected ontology node entity output) := by
  obtain ⟨expected, hexpected⟩ := item_ok houtput
  refine .bind_of_ok hknown ?_
  refine .bind_of_ok hexpected ?_
  refine .bind (.invalidIf _ _) fun _ _ => ?_
  exact .invalidIf _ _

theorem visitSelect_own (h : Checked calendar done node parents) {entity : String} {fields : List String}
    (hparams : node.params = .select entity fields) : OwnFailure (visitSelect ontology walked node entity fields) := by
  refine .bind (.invalidIf _ _) fun _ hentity => ?_
  have hsome := refuseIf_eq_ok.mp hentity
  obtain ⟨known, hknown⟩ := Option.ne_none_iff_exists'.mp (Option.isNone_eq_false_iff.mp hsome |> Option.isSome_iff_ne_none.mp)
  have hitem := item_eq_ok.mpr hknown
  refine .bind_of_ok hitem ?_
  refine .bind (.forM fun _ _ => .invalidIf _ _) fun _ hfields => ?_
  have hnames := (h.select hparams).1
  refine .bind (.forM fun output houtput => checkSelected_own hitem ?_) fun _ _ => .of_ok rfl
  have hfield : output.name ∈ fields := by
    rw [← hnames]
    exact List.mem_map_of_mem houtput
  have hfound := refuseIf_eq_ok.mp (forM_eq_ok.mp hfields output.name hfield)
  exact Dict.lookup_isSome.mp (Option.isNone_eq_false_iff.mp hfound)

theorem visitSelect_covers (hfresh : node.id ∉ done.map (·.id)) (hcovers : Covers done walked) {entity : String}
    {fields : List String} {walked' : Walked} (h : visitSelect ontology walked node entity fields = .ok walked') :
    Covers (done ++ [node]) walked' := by
  simp only [visitSelect, bind_eq_ok, pure_eq_ok] at h
  obtain ⟨_, -, _, -, _, -, _, -, rfl⟩ := h
  refine hcovers.add hfresh ?_ ?_
  · intro name hname
    simpa [SQGNode.outputNames] using hname
  · intro name hname
    simpa [SQGNode.outputNames] using hname

/-- Where the inputs' columns are known, the checks of an operator only raise their own error. -/
theorem checkOperator_own (hontology : ontology.Accepted) (h : Checked calendar done node parents) (hcovers : Covers done walked)
    {inherited : List String} {bindings : List Bindings} (hbindings : List.Forall₂ Named parents bindings) :
    OwnFailure (checkOperator ontology walked node inherited bindings) := by
  unfold checkOperator
  split
  · rename_i params hp
    obtain ⟨parent, rfl, -, hsources, hnames, -⟩ := h.aggregate hp
    obtain ⟨entries, rfl, hentries⟩ := Named.one hbindings
    refine .forM fun measure hmeasure => checkMeasure_own hontology (hentries.found (hsources measure hmeasure)) ?_
    rw [hnames]
    exact List.mem_append_right _ (List.mem_map_of_mem hmeasure)
  · rename_i params hp
    obtain ⟨left, right, rfl, hleftKey, hrightKey, -⟩ := h.join hp
    obtain ⟨l, r, rfl, hl, hr⟩ := Named.two hbindings
    have hentities := hcovers.entity_inputs h.inputs
    obtain ⟨leftId, _, -, hrest, hinputs⟩ := List.forall₂_cons_right_iff.mp h.inputs
    obtain ⟨rightId, _, -, hnil, rfl⟩ := List.forall₂_cons_right_iff.mp hrest
    obtain rfl := List.forall₂_nil_right_iff.mp hnil
    rw [hinputs] at hentities
    refine checkJoin_own ?_ ?_ (hl.found hleftKey) (hr.found hrightKey)
    · rw [hinputs]
      exact hentities leftId (by simp)
    · rw [hinputs]
      exact hentities rightId (by simp)
  · exact .of_ok rfl

/-- What the checks of an aggregate have found. -/
theorem checkOperator_metrics {inherited : List String} {bindings : List Bindings}
    (h : checkOperator ontology walked node inherited bindings = .ok ()) {params : AggregateParams}
    (hparams : node.params = .aggregate params) : ∀ measure ∈ params.measures, measure.metric ∈ ontology.metricTable.map (·.1) := by
  intro measure hmeasure
  simp only [checkOperator, hparams] at h
  exact checkMeasure_metric (forM_eq_ok.mp h measure hmeasure)

/-- One round raises nothing else, and keeps what the next rounds look up. -/
theorem visit_spec (hontology : ontology.Accepted) (h : Checked calendar done node parents) (hfresh : node.id ∉ done.map (·.id))
    (hcovers : Covers done walked) :
    OwnFailure (visit ontology walked node) ∧
      ∀ walked', visit ontology walked node = .ok walked' → Covers (done ++ [node]) walked' := by
  by_cases hselect : ∃ entity fields, node.params = .select entity fields
  · obtain ⟨entity, fields, hparams⟩ := hselect
    have hvisit : visit ontology walked node = visitSelect ontology walked node entity fields := by rw [visit, hparams]
    rw [hvisit]
    exact ⟨visitSelect_own h hparams, fun walked' hwalked => visitSelect_covers hfresh hcovers hwalked⟩
  · have hvisit : visit ontology walked node = visitOperator ontology walked node := by
      unfold visit
      split
      · rename_i entity fields hparams
        exact (hselect ⟨entity, fields, hparams⟩).elim
      · rfl
    have hnot : ∀ entity fields, node.params ≠ .select entity fields := fun entity fields hparams => hselect ⟨entity, fields, hparams⟩
    obtain ⟨lineages, hlineages, hlnamed⟩ := hcovers.lineage.inputs h.inputs
    obtain ⟨bindings, hbindings, hbnamed⟩ := hcovers.bindings.inputs h.inputs
    obtain ⟨entities, hentities⟩ := mapM_ok _ _ (hcovers.entity_inputs h.inputs)
    rw [hvisit]
    refine ⟨?_, ?_⟩
    · refine .bind_of_ok hentities ?_
      refine .bind_of_ok hlineages ?_
      refine .bind_of_ok hbindings ?_
      refine .bind (checkOperator_own hontology h hcovers hbnamed) fun _ hchecks => ?_
      obtain ⟨lineage, bound, hpropagate, -, -⟩ :=
        propagate_ok h hnot (fun params hparams => checkOperator_metrics hchecks hparams) hlnamed hbnamed
      exact .bind_of_ok hpropagate (.of_ok rfl)
    · intro walked' hwalked
      simp only [visitOperator, hentities, hlineages, hbindings, bind_eq_ok, pure_eq_ok, Except.ok.injEq] at hwalked
      obtain ⟨_, rfl, _, rfl, _, rfl, _, hchecks, outcome, houtcome, rfl⟩ := hwalked
      obtain ⟨lineage, bound, hpropagate, hlineage, hbound⟩ :=
        propagate_ok h hnot (fun params hparams => checkOperator_metrics hchecks hparams) hlnamed hbnamed
      obtain rfl := Except.ok.inj (hpropagate.symm.trans houtcome)
      exact hcovers.add hfresh hlineage hbound

theorem loop_own (calendar : Calendar) (hontology : ontology.Accepted) : ∀ (nodes done : List SQGNode) (walked : Walked), Covers done walked →
    (∀ before node after, nodes = before ++ node :: after →
      node.id ∉ (done ++ before).map (·.id) ∧ ∃ parents, Checked calendar (done ++ before) node parents) →
    OwnFailure (nodes.foldlM (visit ontology) walked)
  | [], _, _, _, _ => .of_ok rfl
  | node :: nodes, done, walked, hcovers, hnodes => by
    obtain ⟨hfresh, parents, hchecked⟩ := hnodes [] node nodes rfl
    rw [List.append_nil] at hfresh hchecked
    obtain ⟨hown, hnext⟩ := visit_spec hontology hchecked hfresh hcovers
    rw [List.foldlM_cons]
    refine .bind hown fun walked' hwalked => ?_
    refine loop_own calendar hontology nodes (done ++ [node]) walked' (hnext walked' hwalked) ?_
    intro before other after hsplit
    have hother := hnodes (node :: before) other after (by rw [hsplit, List.cons_append])
    rwa [List.append_cons] at hother

/-- Of an ontology and a graph that the model validators accept, `validate_sqg` returns or
    raises `SemanticValidationError`. -/
theorem validateSqg_own {sqg : SemanticQueryGraph} (hontology : ontology.Accepted) (hsqg : sqg.Accepted calendar) :
    validateSqg sqg ontology = .ok () ∨ ∃ message, validateSqg sqg ontology = .error (.semanticValidation message) := by
  have hown : OwnFailure (validateSqg sqg ontology) := by
    refine .bind (.invalidIf _ _) fun _ _ => ?_
    refine .bind ?_ fun _ _ => .of_ok rfl
    refine loop_own calendar hontology sqg.nodes [] {} ⟨?_, ?_, ?_⟩ fun before node after hnodes => ?_
    · exact fun node hnode => (List.not_mem_nil hnode).elim
    · exact fun node hnode => (List.not_mem_nil hnode).elim
    · exact fun node hnode => (List.not_mem_nil hnode).elim
    · exact hsqg.checked hnodes
  cases h : validateSqg sqg ontology with
  | ok u => exact .inl rfl
  | error e =>
    obtain ⟨message, rfl⟩ := hown e h
    exact .inr ⟨message, rfl⟩

end

/-! ## Employees and their managers -/

def noCalendar : Calendar := ⟨fun _ => false, fun _ => false⟩

def staff : Ontology where
  version := "staff-1"
  entities := [⟨"employee", [⟨"id", .integer, false⟩, ⟨"manager", .integer, true⟩, ⟨"salary", .decimal, false⟩]⟩]
  metrics := [⟨"payroll", "employee", "salary", .sum⟩]
  relations := [⟨"manages", "employee", "employee", "manager", "id"⟩]

/-- The salaries of everyone who has a manager, by manager. -/
def payroll : SemanticQueryGraph where
  ontologyVersion := "staff-1"
  nodes := [
    ⟨"staff", [], [⟨"id", .integer, false⟩, ⟨"manager", .integer, true⟩, ⟨"salary", .decimal, false⟩],
      .select "employee" ["id", "manager", "salary"]⟩,
    ⟨"pairs", ["staff", "staff"], [⟨"salary", .decimal, false⟩, ⟨"boss", .integer, false⟩],
      .join ⟨"manages", "manager", "id", .inner, [⟨.left, "salary", "salary"⟩, ⟨.right, "id", "boss"⟩]⟩⟩,
    ⟨"totals", ["pairs"], [⟨"boss", .integer, false⟩, ⟨"total", .decimal, false⟩],
      .aggregate { groupBy := ["boss"], measures := [⟨"payroll", "salary", "total"⟩] }⟩]
  root := "totals"

theorem staff_accepted : staff.Accepted where
  entities := by
    intro entity hentity
    obtain rfl := List.mem_singleton.mp hentity
    rfl
  concepts := rfl

theorem payroll_accepted : payroll.Accepted noCalendar where
  outputs := by
    intro node hnode
    simp only [payroll, List.mem_cons, List.not_mem_nil, or_false] at hnode
    rcases hnode with rfl | rfl | rfl <;> rfl
  predicates := by
    intro node hnode predicate hparams
    simp only [payroll, List.mem_cons, List.not_mem_nil, or_false] at hnode
    rcases hnode with rfl | rfl | rfl <;> cases hparams
  graph := rfl

theorem payroll_own :
    validateSqg payroll staff = .ok () ∨ ∃ message, validateSqg payroll staff = .error (.semanticValidation message) :=
  validateSqg_own staff_accepted payroll_accepted

end DataNexus.SemanticCore
