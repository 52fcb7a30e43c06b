/-
  DataNexus.SemanticCore.Provenance — what a measure sums up, and what a join matches.

  `validate_sqg` keeps, for every output, the field occurrences it still is. One that it keeps
  is a column that operators have only passed on from a SELECT (`Carried`), so that its cells
  are read from rows of the entity, or padded.

  - `kept`: the invariant of the loop (`Bound`), for the outputs of every node so far.
  - `Carried.holds`: what the cells of such a column hold, for all data.
  - `governed_columns`: the input column of every measure holds the metric's field, and the
    key columns of every join the fields of its relation, one way or the other.
-/

import DataNexus.SemanticCore.Columns

namespace DataNexus.SemanticCore

open Lib

/-! ## Columns that are only passed on -/

/-- The column of the node is the field of the entity, as a SELECT has read it. -/
inductive Carried (nodes : List SQGNode) : String → String → String → String → Prop
  | read {node : SQGNode} {entity field : String} {fields : List String} : node ∈ nodes → node.params = .select entity fields →
      field ∈ fields → Carried nodes node.id field entity field
  | passed {node : SQGNode} {name input column entity field : String} {i : Nat} : node ∈ nodes → name ∈ node.outputNames →
      passedFrom node.params name = some (i, column) → node.inputs[i]? = some input → Carried nodes input column entity field →
      Carried nodes node.id name entity field

/-- A cell of the field: read in a row of the entity, or padded. -/
def Holds (data : Data) (entity field : String) (cell : Cell) : Prop :=
  cell = .pad ∨ ∃ i record, (data entity)[i]? = some record ∧ cell = ⟨record field, some ⟨entity, field, i⟩⟩

section

variable {calendar : Calendar} {sqg : SemanticQueryGraph} {engine : Engine} {ontology : Ontology} {data : Data}

theorem SemanticQueryGraph.Accepted.nodup (h : sqg.Accepted calendar) : (sqg.nodes.map (·.id)).Nodup := by
  have hgraph := h.graph
  simp only [SemanticQueryGraph.graphIsDeterministic, bind_eq_ok, refuseIf_eq_ok] at hgraph
  obtain ⟨_, hunique, -⟩ := hgraph
  exact dedup_length_bne.mp hunique

theorem SemanticQueryGraph.Accepted.outputs_nodup (h : sqg.Accepted calendar) {node : SQGNode} (hnode : node ∈ sqg.nodes) :
    node.outputNames.Nodup := by
  have hunique := h.outputs node hnode
  simp only [SQGNode.outputNamesAreUnique, refuseIf_eq_ok] at hunique
  exact dedup_length_bne.mp hunique

theorem Checked.input_mem {done : List SQGNode} {node : SQGNode} {parents : List SQGNode} (h : Checked calendar done node parents) :
    ∀ id ∈ node.inputs, id ∈ done.map (·.id) := by
  intro id hid
  obtain ⟨parent, -, hparent, rfl⟩ := mem_of_forall₂ h.inputs.flip hid
  exact List.mem_map_of_mem hparent

/-- The rows of a node of an accepted graph, and what the graph's validator has checked of it. -/
theorem SemanticQueryGraph.Accepted.rows (h : sqg.Accepted calendar) (engine : Engine) (ontology : Ontology) (data : Data)
    {node : SQGNode} (hnode : node ∈ sqg.nodes) : ∃ done parents, Checked calendar done node parents ∧
      rowsOf engine ontology data sqg.nodes node.id =
        evaluateNode engine ontology data node (node.inputs.map (rowsOf engine ontology data sqg.nodes)) := by
  obtain ⟨before, after, hnodes⟩ := List.append_of_mem hnode
  obtain ⟨-, parents, hchecked⟩ := h.checked hnodes
  exact ⟨before, parents, hchecked, rowsOf_node engine ontology data hnodes h.nodup hchecked.input_mem⟩

theorem mem_readRows {entity : String} {row : Row}
    (h : row ∈ (data entity).zipIdx.map fun entry => readRow entity entry.1 entry.2) (field : String) : Holds data entity field (row field) := by
  obtain ⟨⟨record, i⟩, hentry, rfl⟩ := List.mem_map.mp h
  exact .inr ⟨i, record, List.mem_zipIdx_iff_getElem?.mp hentry, rfl⟩

/-- Whatever the data, the cells of a column that is only passed on hold the field. -/
theorem Carried.holds (hsqg : sqg.Accepted calendar) {id name entity field : String} (h : Carried sqg.nodes id name entity field) :
    ∀ row ∈ rowsOf engine ontology data sqg.nodes id, Holds data entity field (row name) := by
  induction h with
  | @read node entity field fields hnode hparams _ =>
    intro row hrow
    obtain ⟨done, parents, -, hrows⟩ := hsqg.rows engine ontology data hnode
    rw [hrows] at hrow
    simp only [evaluateNode, hparams] at hrow
    exact mem_readRows hrow field
  | @passed node name input column entity field i hnode hname hfrom hinput _ ih =>
    intro row hrow
    obtain ⟨done, parents, hchecked, hrows⟩ := hsqg.rows engine ontology data hnode
    rw [hrows] at hrow
    rcases evaluateNode_passed hchecked hname hfrom hrow with ⟨rows, hrows, r, hr, hcell⟩ | ⟨hpad, -⟩
    · rw [List.getElem?_map, hinput] at hrows
      obtain rfl := Option.some.inj hrows
      rw [hcell]
      exact ih r hr
    · exact .inl hpad

end

/-! ## The occurrences that a node hands on -/

section

variable {ontology : Ontology} {node : SQGNode}

theorem mem_withEffectiveNullability {bindings : List DirectBinding} {nullable : Bool} {binding : DirectBinding}
    (h : binding ∈ withEffectiveNullability bindings nullable) :
    ∃ source ∈ bindings, binding = { source with nullable := source.nullable || nullable } := by
  obtain ⟨source, hsource, rfl⟩ := List.mem_map.mp (List.mem_dedup.mp h)
  exact ⟨source, hsource, rfl⟩

theorem withEffectiveNullability_length {bindings : List DirectBinding} {nullable : Bool} (h : bindings.length ≤ 1) :
    (withEffectiveNullability bindings nullable).length ≤ 1 := by
  refine le_trans (List.Sublist.length_le (List.dedup_sublist _)) ?_
  rwa [List.length_map]

/-- The occurrences of an output, from those of the column that it is. -/
structure HandedOn (node : SQGNode) (output : OutputField) (bindings : List Bindings) (found : List DirectBinding) (i : Nat)
    (column : String) (source : List DirectBinding) : Prop where
  passed : passedFrom node.params output.name = some (i, column)
  entry : ∃ entries, nth bindings i = .ok entries ∧ entries.lookup column = some source
  found : found = withEffectiveNullability source output.nullable ∨ found = source ∧ ∃ params, node.params = .pivot params

theorem output_unique (hnodup : node.outputNames.Nodup) {output other : OutputField} (houtput : output ∈ node.outputs)
    (hother : other ∈ node.outputs) (hname : other.name = output.name) : other = output :=
  List.inj_on_of_nodup_map hnodup hother houtput hname

theorem lookup_computed {α : Type} {xs : List α} {key : α → String} {rest : Bindings} {name : String} {found : List DirectBinding}
    (h : ((xs.map fun x => (key x, ([] : List DirectBinding))) ++ rest).lookup name = some found) :
    found = [] ∨ (xs.map key).contains name = false ∧ rest.lookup name = some found := by
  rw [List.lookup_append, Option.or_eq_some_iff] at h
  rcases h with h | ⟨hnone, h⟩
  · obtain ⟨x, -, heq⟩ := List.mem_map.mp (mem_of_lookup h)
    exact .inl (Prod.mk.inj heq).2.symm
  · refine .inr ⟨?_, h⟩
    rw [← Bool.not_eq_true, List.contains_iff_mem]
    intro hname
    have hkeys : name ∈ (xs.map fun x => (key x, ([] : List DirectBinding))).map (·.1) := by
      rw [List.map_map]
      exact hname
    obtain ⟨_, hfound⟩ := exists_lookup hkeys
    rw [hfound] at hnone
    cases hnone

theorem mem_of_firstOf {outputs : List OutputField} {name : String} {output : OutputField}
    (h : firstOf outputs (·.name == name) = .ok output) : output ∈ outputs ∧ output.name = name := by
  unfold firstOf at h
  split at h
  · rename_i found hfound
    obtain rfl := Except.ok.inj h
    exact ⟨List.mem_of_find?_eq_some hfound, by simpa using List.find?_some hfound⟩
  · cases h

/-- What is kept of an output is nothing, or what was kept of the column that it is. -/
theorem propagate_handsOn {calendar : Calendar} {done parents : List SQGNode} (hchecked : Checked calendar done node parents)
    {lineages : List Lineage} {bindings : List Bindings} {lineage : Lineage} {bound : Bindings}
    (h : propagate ontology node lineages bindings = .ok (lineage, bound)) (hnodup : node.outputNames.Nodup) {output : OutputField}
    (houtput : output ∈ node.outputs) {found : List DirectBinding} (hfound : bound.lookup output.name = some found) :
    found = [] ∨ ∃ i column source, HandedOn node output bindings found i column source := by
  have hpasses : passedFrom node.params output.name = some (0, output.name) → (node.outputs.mapM fun output => do
        let bound ← item (← nth bindings 0) output.name
        return (output.name, withEffectiveNullability bound output.nullable)) = .ok bound →
      ∃ i column source, HandedOn node output bindings found i column source := by
    intro hfrom hbound
    obtain ⟨other, hother, hmade⟩ := lookup_of_mapM hbound hfound
    simp only [bind_eq_ok, pure_eq_ok, Prod.mk.injEq] at hmade
    obtain ⟨entries, hentries, source, hitem, hname, rfl⟩ := hmade
    obtain rfl := output_unique hnodup houtput hother hname
    exact ⟨0, _, source, hfrom, ⟨entries, hentries, item_eq_ok.mp hitem⟩, .inl rfl⟩
  cases hp : node.params with
  | select entity fields => simp [propagate, hp] at h
  | filter predicate =>
    simp only [propagate, hp, bind_eq_ok, pure_eq_ok, Prod.mk.injEq] at h
    obtain ⟨_, -, _, hbound, -, rfl⟩ := h
    exact .inr (hpasses (by rw [hp]; rfl) hbound)
  | sort keys =>
    simp only [propagate, hp, bind_eq_ok, pure_eq_ok, Prod.mk.injEq] at h
    obtain ⟨_, -, _, hbound, -, rfl⟩ := h
    exact .inr (hpasses (by rw [hp]; rfl) hbound)
  | project fields =>
    simp only [propagate, hp, bind_eq_ok, pure_eq_ok, Prod.mk.injEq] at h
    obtain ⟨_, -, _, hbound, -, rfl⟩ := h
    exact .inr (hpasses (by rw [hp]; rfl) hbound)
  | derive expressions =>
    simp only [propagate, hp, bind_eq_ok, pure_eq_ok, Prod.mk.injEq] at h
    obtain ⟨_, -, fromBindings, hfrom, _, -, -, rfl⟩ := h
    refine (lookup_computed hfound).imp id fun hcopied => ?_
    obtain ⟨hnot, hkept⟩ := hcopied
    obtain ⟨other, hother, hmade⟩ := List.mem_filterMap.mp (mem_of_lookup hkept)
    obtain ⟨source, hsource, heq⟩ := Option.map_eq_some_iff.mp hmade
    obtain ⟨hname, rfl⟩ := Prod.mk.inj heq
    obtain rfl := output_unique hnodup houtput hother hname
    refine ⟨0, other.name, source, ?_, ⟨fromBindings, hfrom, hsource⟩, .inl rfl⟩
    rw [hp, passedFrom, hnot]
    rfl
  | aggregate params =>
    simp only [propagate, hp, bind_eq_ok, pure_eq_ok, Prod.mk.injEq] at h
    obtain ⟨_, -, kept, hbound, _, -, -, rfl⟩ := h
    refine (lookup_computed hfound).imp id fun hcopied => ?_
    obtain ⟨hnot, hkept⟩ := hcopied
    obtain ⟨field, hfield, hmade⟩ := lookup_of_mapM hbound hkept
    simp only [bind_eq_ok, pure_eq_ok, Prod.mk.injEq] at hmade
    obtain ⟨_, ⟨entries, hentries, source, hitem, other, hother, rfl⟩, rfl, rfl⟩ := hmade
    obtain ⟨hmem, hname⟩ := mem_of_firstOf hother
    obtain rfl := output_unique hnodup houtput hmem hname
    refine ⟨0, _, source, ?_, ⟨entries, hentries, item_eq_ok.mp hitem⟩, .inl rfl⟩
    rw [hp, passedFrom, hnot]
    rfl
  | pivot params =>
    simp only [propagate, hp, bind_eq_ok, pure_eq_ok, Prod.mk.injEq] at h
    obtain ⟨_, -, _, -, _, -, _, -, _, -, kept, hbound, -, rfl⟩ := h
    refine (lookup_computed hfound).imp id fun hcopied => ?_
    obtain ⟨hnot, hkept⟩ := hcopied
    obtain ⟨field, hfield, hmade⟩ := lookup_of_mapM hbound hkept
    simp only [bind_eq_ok, pure_eq_ok, Prod.mk.injEq] at hmade
    obtain ⟨source, ⟨entries, hentries, hitem⟩, rfl, rfl⟩ := hmade
    refine ⟨0, _, source, ?_, ⟨entries, hentries, item_eq_ok.mp hitem⟩, .inr ⟨rfl, params, hp⟩⟩
    rw [List.map_id'] at hnot
    rw [hp, passedFrom, hnot]
    rfl
  | join params =>
    simp only [propagate, hp, bind_eq_ok, pure_eq_ok, Prod.mk.injEq] at h
    obtain ⟨_, -, _, hbound, -, rfl⟩ := h
    obtain ⟨projection, hprojection, hmade⟩ := lookup_of_mapM hbound hfound
    simp only [bind_eq_ok, pure_eq_ok, Prod.mk.injEq] at hmade
    obtain ⟨entries, hentries, source, hitem, other, hother, hname, rfl⟩ := hmade
    obtain ⟨hmem, hothername⟩ := Outputs.mem_of_get hother
    obtain rfl := output_unique hnodup houtput hmem (hothername.trans hname)
    refine .inr ⟨projection.source.input, projection.field, source, ?_, ⟨entries, hentries, item_eq_ok.mp hitem⟩, .inl rfl⟩
    obtain ⟨_, _, -, -, -, -, hnames, hdistinct⟩ := hchecked.join hp
    have hfind : params.fields.find? (·.name == other.name) = some projection := by
      refine find?_eq_of_unique hprojection (by simp [hname]) fun q hq heq => ?_
      exact List.inj_on_of_nodup_map (hnames ▸ hdistinct) hq hprojection ((beq_iff_eq.mp heq).trans hname.symm)
    rw [hp, passedFrom, hfind]
    rfl

end

/-! ## The loop -/

/-- The field, if the ontology has it. -/
def Ontology.fieldOf (ontology : Ontology) (entity field : String) : Option OntologyField :=
  (ontology.fieldTable.lookup entity).bind (·.lookup field)

/-- What an occurrence that is kept of an output says of it. -/
structure Bound (ontology : Ontology) (nodes : List SQGNode) (node : SQGNode) (output : OutputField) (binding : DirectBinding) : Prop where
  carried : Carried nodes node.id output.name binding.entity binding.field
  declared : ∃ field, ontology.fieldOf binding.entity binding.field = some field ∧ field.dataType = output.dataType
  nullable : output.nullable = true → binding.nullable = true

def KeptOf (ontology : Ontology) (nodes : List SQGNode) (node : SQGNode) (entries : Bindings) : Prop :=
  ∀ output ∈ node.outputs, ∀ found, entries.lookup output.name = some found →
    found.length ≤ 1 ∧ ∀ binding ∈ found, Bound ontology nodes node output binding

def Kept (ontology : Ontology) (nodes done : List SQGNode) (walked : Walked) : Prop :=
  ∀ node ∈ done, ∃ entries, walked.bindings.lookup node.id = some entries ∧ KeptOf ontology nodes node entries

theorem getElem?_of_forall₂ {α β : Type} {R : α → β → Prop} {xs : List α} {ys : List β} (h : List.Forall₂ R xs ys) {i : Nat} {y : β}
    (hy : ys[i]? = some y) : ∃ x, xs[i]? = some x ∧ R x y := by
  obtain ⟨hi, rfl⟩ := List.getElem?_eq_some_iff.mp hy
  have hi' : i < xs.length := h.length_eq ▸ hi
  exact ⟨xs[i], List.getElem?_eq_getElem hi', h.get hi' hi⟩

theorem nth_eq_ok {α : Type} {xs : List α} {i : Nat} {x : α} : nth xs i = .ok x ↔ xs[i]? = some x := by
  unfold nth
  cases xs[i]? <;> simp

section

variable {calendar : Calendar} {sqg : SemanticQueryGraph} {ontology : Ontology} {nodes done : List SQGNode} {node : SQGNode}
  {parents : List SQGNode} {walked : Walked}

theorem Kept.add (h : Kept ontology nodes done walked) (hfresh : node.id ∉ done.map (·.id)) {entries : Bindings}
    (hentries : KeptOf ontology nodes node entries) {entities : List String} {lineage : Lineage} :
    Kept ontology nodes (done ++ [node]) (walked.add node.id entities lineage entries) := by
  intro other hother
  rcases List.mem_append.mp hother with hother | hother
  · have hne : other.id ≠ node.id := fun heq => hfresh (heq ▸ List.mem_map_of_mem hother)
    obtain ⟨found, hfound, hkept⟩ := h other hother
    exact ⟨found, by rw [Walked.add, lookup_cons_ne hne, hfound], hkept⟩
  · obtain rfl := List.mem_singleton.mp hother
    exact ⟨entries, by simp [Walked.add], hentries⟩

/-- What is kept of the inputs is what the rounds before have kept of them. -/
theorem Kept.input (h : Kept ontology nodes done walked) (hchecked : Checked calendar done node parents) {bindings : List Bindings}
    (hbindings : node.inputs.mapM (item walked.bindings) = .ok bindings) {i : Nat} {entries : Bindings}
    (hentries : nth bindings i = .ok entries) {parent : SQGNode} (hparent : parents[i]? = some parent) :
    node.inputs[i]? = some parent.id ∧ KeptOf ontology nodes parent entries := by
  obtain ⟨input, hinput, hitem⟩ := getElem?_of_forall₂ (mapM_eq_ok.mp hbindings) (nth_eq_ok.mp hentries)
  obtain ⟨dependency, hdependency, hdone, rfl⟩ := getElem?_of_forall₂ hchecked.inputs hparent
  obtain rfl := Option.some.inj (hinput.symm.trans hdependency)
  obtain ⟨found, hfound, hkept⟩ := h parent hdone
  obtain rfl := Option.some.inj (hfound.symm.trans (item_eq_ok.mp hitem))
  exact ⟨hinput, hkept⟩

/-- An occurrence handed on is one of the output. -/
theorem Bound.handedOn (hnode : node ∈ nodes) {output source : OutputField} (houtput : output ∈ node.outputs) {i : Nat}
    {column : String} {parent : SQGNode} (hpassed : PassedOutput node parents output i column parent source)
    (hfrom : passedFrom node.params output.name = some (i, column)) (hinput : node.inputs[i]? = some parent.id)
    {binding kept : DirectBinding} (h : Bound ontology nodes parent source binding)
    (hsame : kept.entity = binding.entity ∧ kept.field = binding.field)
    (hnullable : output.nullable = true → kept.nullable = true) : Bound ontology nodes node output kept where
  carried := by
    rw [hsame.1, hsame.2]
    refine .passed hnode (List.mem_map_of_mem houtput) hfrom hinput ?_
    rw [← hpassed.name]
    exact h.carried
  declared := by
    rw [hsame.1, hsame.2, hpassed.type]
    exact h.declared
  nullable := hnullable

theorem visitSelect_kept (hchecked : Checked calendar done node parents) (hnode : node ∈ nodes) (hnodup : node.outputNames.Nodup)
    {entity : String} {fields : List String} (hparams : node.params = .select entity fields) (hfresh : node.id ∉ done.map (·.id))
    (h : Kept ontology nodes done walked) {walked' : Walked} (hvisit : visitSelect ontology walked node entity fields = .ok walked') :
    Kept ontology nodes (done ++ [node]) walked' := by
  simp only [visitSelect, bind_eq_ok, pure_eq_ok] at hvisit
  obtain ⟨_, -, _, -, _, -, _, hselected, rfl⟩ := hvisit
  refine h.add hfresh fun output houtput found hfound => ?_
  obtain ⟨other, hother, heq⟩ := List.mem_map.mp (mem_of_lookup hfound)
  obtain ⟨hname, rfl⟩ := Prod.mk.inj heq
  obtain rfl := output_unique hnodup houtput hother hname
  refine ⟨le_refl _, fun binding hbinding => ?_⟩
  obtain rfl := List.mem_singleton.mp hbinding
  have hcheck := forM_eq_ok.mp hselected other houtput
  simp only [checkSelected, bind_eq_ok, invalidIf, refuseIf_eq_ok, bne_eq_false_iff_eq] at hcheck
  obtain ⟨known, hknown, field, hfield, _, htype, -⟩ := hcheck
  refine ⟨.read hnode hparams ?_, ⟨field, ?_, htype.symm⟩, id⟩
  · rw [← (hchecked.select hparams).1]
    exact List.mem_map_of_mem houtput
  · rw [Ontology.fieldOf, item_eq_ok.mp hknown]
    exact item_eq_ok.mp hfield

theorem visitOperator_kept (hchecked : Checked calendar done node parents) (hnode : node ∈ nodes) (hnodup : node.outputNames.Nodup)
    (hfresh : node.id ∉ done.map (·.id)) (h : Kept ontology nodes done walked) {walked' : Walked}
    (hvisit : visitOperator ontology walked node = .ok walked') : Kept ontology nodes (done ++ [node]) walked' := by
  simp only [visitOperator, bind_eq_ok, pure_eq_ok] at hvisit
  obtain ⟨_, -, _, -, bindings, hbindings, _, -, ⟨lineage, bound⟩, hpropagate, rfl⟩ := hvisit
  refine h.add hfresh fun output houtput found hfound => ?_
  rcases propagate_handsOn hchecked hpropagate hnodup houtput hfound with rfl | ⟨i, column, source, hhanded⟩
  · exact ⟨Nat.zero_le _, fun binding hbinding => (List.not_mem_nil hbinding).elim⟩
  obtain ⟨parent, declared, hpassed⟩ := hchecked.passed houtput hhanded.passed
  obtain ⟨entries, hentries, hsource⟩ := hhanded.entry
  obtain ⟨hinput, hkept⟩ := h.input hchecked hbindings hentries hpassed.input
  rw [← hpassed.name] at hsource
  obtain ⟨hlength, hbound⟩ := hkept declared hpassed.mem source hsource
  rcases hhanded.found with rfl | ⟨rfl, params, hpivot⟩
  · refine ⟨withEffectiveNullability_length hlength, fun binding hbinding => ?_⟩
    obtain ⟨kept, hmem, rfl⟩ := mem_withEffectiveNullability hbinding
    refine (hbound kept hmem).handedOn hnode houtput hpassed hhanded.passed hinput ⟨rfl, rfl⟩ fun hnullable => ?_
    rw [hnullable, Bool.or_true]
  · -- a PIVOT leaves an occurrence as it was, and its index columns are declared as they were
    refine ⟨hlength, fun binding hbinding => ?_⟩
    refine (hbound binding hbinding).handedOn hnode houtput hpassed hhanded.passed hinput ⟨rfl, rfl⟩ fun hnullable => ?_
    have hpads : padsInput node.params i = false := by
      rw [hpivot]
      rfl
    rw [hpassed.nullable, hpads, Bool.or_false] at hnullable
    exact (hbound binding hbinding).nullable hnullable

/-- One round keeps the invariant. -/
theorem visit_kept (hchecked : Checked calendar done node parents) (hnode : node ∈ nodes) (hnodup : node.outputNames.Nodup)
    (hfresh : node.id ∉ done.map (·.id)) (h : Kept ontology nodes done walked) {walked' : Walked}
    (hvisit : visit ontology walked node = .ok walked') : Kept ontology nodes (done ++ [node]) walked' := by
  unfold visit at hvisit
  split at hvisit
  · rename_i entity fields hparams
    exact visitSelect_kept hchecked hnode hnodup hparams hfresh h hvisit
  · exact visitOperator_kept hchecked hnode hnodup hfresh h hvisit

/-- In a loop that returns, every round starts from what is kept of the nodes before. -/
theorem kept (hsqg : sqg.Accepted calendar) (hvalid : validateSqg sqg ontology = .ok ()) {before after : List SQGNode}
    (hnodes : sqg.nodes = before ++ node :: after) :
    ∃ walked walked', before.foldlM (visit ontology) {} = .ok walked ∧ Kept ontology sqg.nodes before walked ∧
      visit ontology walked node = .ok walked' := by
  simp only [validateSqg, bind_eq_ok] at hvalid
  obtain ⟨_, -, _, hloop, -⟩ := hvalid
  rw [hnodes, List.foldlM_append, bind_eq_ok] at hloop
  obtain ⟨walked, hbefore, hrest⟩ := hloop
  rw [List.foldlM_cons, bind_eq_ok] at hrest
  obtain ⟨walked', hvisit, -⟩ := hrest
  refine ⟨walked, walked', hbefore, ?_, hvisit⟩
  refine foldlM_invariant hbefore (P := Kept ontology sqg.nodes) (fun node hnode => (List.not_mem_nil hnode).elim) ?_
  intro done x rest t t' hbefore hkept hx
  have hsplit : sqg.nodes = done ++ x :: (rest ++ node :: after) := by rw [hnodes, hbefore, List.append_assoc, List.cons_append]
  obtain ⟨hfresh, parents, hchecked⟩ := hsqg.checked hsplit
  have hmem : x ∈ sqg.nodes := by simp [hsplit]
  exact visit_kept hchecked hmem (hsqg.outputs_nodup hmem) hfresh hkept hx

end

/-! ## Measures and keys -/

section

variable {ontology : Ontology} {node : SQGNode}

/-- What `validate_sqg` has checked of a measure: its metric, and the occurrence it reads. -/
structure MeasureChecked (ontology : Ontology) (node : SQGNode) (params : AggregateParams) (bindings : List Bindings)
    (measure : MeasureRef) (metric : Metric) (binding : DirectBinding) : Prop where
  named : ontology.metricTable.lookup measure.metric = some metric
  source : ∃ entries found, nth bindings 0 = .ok entries ∧ entries.lookup measure.source = some found ∧ binding ∈ found
  field : binding.entity = metric.entity ∧ binding.field = metric.field
  output : ∃ output field, firstOf node.outputs (·.name == measure.name) = .ok output ∧
    ontology.fieldOf metric.entity metric.field = some field ∧
    aggregationOutputType metric.aggregation field.dataType = .ok output.dataType ∧
    output.nullable = (!metric.aggregation.counts && (binding.nullable || params.groupBy.isEmpty))

theorem matchesSource_iff {binding : DirectBinding} {source : Source} :
    matchesSource binding source = true ↔ binding.entity = source.1 ∧ binding.field = source.2 := by
  obtain ⟨entity, field⟩ := source
  simp [matchesSource]

theorem checkMeasure_spec {params : AggregateParams} {inherited : List String} {bindings : List Bindings} {measure : MeasureRef}
    (h : checkMeasure ontology node params inherited bindings measure = .ok ()) :
    ∃ metric binding, MeasureChecked ontology node params bindings measure metric binding := by
  unfold checkMeasure at h
  split at h
  · cases h
  rename_i metric hmetric
  simp only [sourceBindings, invalidIf, bind_eq_ok, pure_eq_ok, refuseIf_eq_ok, bne_eq_false_iff_eq] at h
  obtain ⟨_, -, sources, ⟨entries, hentries, found, hfound, hsources⟩, _, -, _, hone, output, houtput, fields, hfields, field,
    hfield, type, htype, _, houttype, houtnullable⟩ := h
  obtain ⟨binding, rfl⟩ := List.length_eq_one_iff.mp hone
  have hmem : binding ∈ found.filter fun binding => matchesSource binding (metric.entity, metric.field) := by
    rw [hsources]
    exact List.mem_cons_self
  obtain ⟨hmem, hmatch⟩ := List.mem_filter.mp hmem
  refine ⟨metric, binding, hmetric, ⟨entries, found, hentries, item_eq_ok.mp hfound, hmem⟩, matchesSource_iff.mp hmatch,
    output, field, houtput, ?_, houttype ▸ htype, ?_⟩
  · rw [Ontology.fieldOf, item_eq_ok.mp hfields]
    exact item_eq_ok.mp hfield
  · simpa using houtnullable

/-- What `validate_sqg` has checked of the keys of a join. -/
structure KeysChecked (ontology : Ontology) (params : JoinParams) (bindings : List Bindings) (relation : Relation)
    (left right : DirectBinding) : Prop where
  named : ontology.relationTable.lookup params.relation = some relation
  leftKey : ∃ entries found, nth bindings 0 = .ok entries ∧ entries.lookup params.leftKey = some found ∧ left ∈ found
  rightKey : ∃ entries found, nth bindings 1 = .ok entries ∧ entries.lookup params.rightKey = some found ∧ right ∈ found
  way : (left.entity = relation.leftEntity ∧ left.field = relation.leftField) ∧
      (right.entity = relation.rightEntity ∧ right.field = relation.rightField) ∨
    (left.entity = relation.rightEntity ∧ left.field = relation.rightField) ∧
      (right.entity = relation.leftEntity ∧ right.field = relation.leftField)

theorem mem_orientations {relation : Relation} {left right : List String} {way : Source × Source}
    (h : way ∈ orientations relation left right) :
    way = ((relation.leftEntity, relation.leftField), (relation.rightEntity, relation.rightField)) ∨
      way = ((relation.rightEntity, relation.rightField), (relation.leftEntity, relation.leftField)) := by
  unfold orientations at h
  dsimp only at h
  split at h <;> split at h <;> simp only [List.mem_append, List.mem_cons, List.not_mem_nil, or_false, false_or] at h
  · exact h
  · exact .inl h
  · exact .inr h

theorem checkJoin_spec {params : JoinParams} {walked : Walked} {bindings : List Bindings}
    (h : checkJoin ontology node params walked bindings = .ok ()) :
    ∃ relation left right, KeysChecked ontology params bindings relation left right := by
  unfold checkJoin at h
  split at h
  · cases h
  rename_i relation hrelation
  simp only [invalidIf, bind_eq_ok, refuseIf_eq_ok, Bool.or_eq_false_iff, bne_eq_false_iff_eq] at h
  obtain ⟨_, -, _, -, _, -, _, -, _, -, leftEntries, hleftEntries, leftKeys, hleftKeys, rightEntries, hrightEntries, rightKeys,
    hrightKeys, _, ⟨hleftOne, hrightOne⟩, leftBinding, hleft, rightBinding, hright, hone⟩ := h
  obtain ⟨left, rfl⟩ := List.length_eq_one_iff.mp hleftOne
  obtain ⟨right, rfl⟩ := List.length_eq_one_iff.mp hrightOne
  obtain rfl : left = leftBinding := by simpa [firstOf] using hleft
  obtain rfl : right = rightBinding := by simpa [firstOf] using hright
  obtain ⟨way, hway⟩ := List.length_eq_one_iff.mp hone
  have hmem : way ∈ _ := hway ▸ List.mem_cons_self
  obtain ⟨hmem, hmatch⟩ := List.mem_filter.mp hmem
  obtain ⟨hl, hr⟩ := Bool.and_eq_true_iff.mp hmatch
  refine ⟨relation, left, right, hrelation, ⟨leftEntries, [left], hleftEntries, item_eq_ok.mp hleftKeys, List.mem_cons_self⟩,
    ⟨rightEntries, [right], hrightEntries, item_eq_ok.mp hrightKeys, List.mem_cons_self⟩, ?_⟩
  rcases mem_orientations hmem with rfl | rfl
  · exact .inl ⟨matchesSource_iff.mp hl, matchesSource_iff.mp hr⟩
  · exact .inr ⟨matchesSource_iff.mp hl, matchesSource_iff.mp hr⟩

end

/-! ## Governed columns -/

/-- The column of the node is the field of the entity, only passed on, and holds it. -/
structure Governed (sqg : SemanticQueryGraph) (engine : Engine) (ontology : Ontology) (data : Data) (id column entity field : String) :
    Prop where
  carried : Carried sqg.nodes id column entity field
  holds : ∀ row ∈ rowsOf engine ontology data sqg.nodes id, Holds data entity field (row column)

section

variable {calendar : Calendar} {sqg : SemanticQueryGraph} {ontology : Ontology} {done : List SQGNode} {node : SQGNode}
  {parents : List SQGNode} {walked : Walked}

/-- An occurrence that is kept of a column of an input. -/
theorem Kept.governed (hsqg : sqg.Accepted calendar) (h : Kept ontology sqg.nodes done walked) (hchecked : Checked calendar done node parents)
    {bindings : List Bindings} (hbindings : node.inputs.mapM (item walked.bindings) = .ok bindings) {i : Nat} {parent : SQGNode}
    (hparent : parents[i]? = some parent) {column : String} (hcolumn : column ∈ parent.outputNames) {binding : DirectBinding}
    (hkept : ∃ entries found, nth bindings i = .ok entries ∧ entries.lookup column = some found ∧ binding ∈ found) (engine : Engine)
    (data : Data) : Governed sqg engine ontology data parent.id column binding.entity binding.field := by
  obtain ⟨entries, found, hentries, hfound, hmem⟩ := hkept
  obtain ⟨-, hof⟩ := h.input hchecked hbindings hentries hparent
  obtain ⟨output, houtput, rfl⟩ := List.mem_map.mp hcolumn
  have hcarried := ((hof output houtput found hfound).2 binding hmem).carried
  exact ⟨hcarried, hcarried.holds hsqg⟩

/-- What the round of an operator has checked, from what is kept of the inputs. -/
theorem visitOperator_checks {walked' : Walked} (hvisit : visitOperator ontology walked node = .ok walked') :
    ∃ inherited bindings, node.inputs.mapM (item walked.bindings) = .ok bindings ∧
      checkOperator ontology walked node inherited bindings = .ok () := by
  simp only [visitOperator, bind_eq_ok, pure_eq_ok] at hvisit
  obtain ⟨_, -, _, -, bindings, hbindings, _, hchecks, -⟩ := hvisit
  exact ⟨_, bindings, hbindings, hchecks⟩

theorem inputs_eq_ids (h : Checked calendar done node parents) : node.inputs = parents.map (·.id) := by
  refine List.forall₂_eq_eq_eq ▸ ?_
  rw [List.forall₂_map_right_iff]
  exact h.inputs.imp fun _ _ hparent => hparent.2.symm

/-- Of a graph that is accepted, for all data: the input column of every measure holds the
    field that its metric is defined on, and the key columns of every join hold the key fields
    of its relation, one way or the other, where they are not padded. -/
theorem governed_columns (hsqg : sqg.Accepted calendar) (hvalid : validateSqg sqg ontology = .ok ()) (engine : Engine) (data : Data) :
    (∀ node ∈ sqg.nodes, ∀ params, node.params = .aggregate params → ∃ input, node.inputs = [input] ∧
      ∀ measure ∈ params.measures, ∃ metric, ontology.metricTable.lookup measure.metric = some metric ∧
        Governed sqg engine ontology data input measure.source metric.entity metric.field) ∧
    ∀ node ∈ sqg.nodes, ∀ params, node.params = .join params → ∃ left right relation, node.inputs = [left, right] ∧
      ontology.relationTable.lookup params.relation = some relation ∧
        (Governed sqg engine ontology data left params.leftKey relation.leftEntity relation.leftField ∧
            Governed sqg engine ontology data right params.rightKey relation.rightEntity relation.rightField ∨
          Governed sqg engine ontology data left params.leftKey relation.rightEntity relation.rightField ∧
            Governed sqg engine ontology data right params.rightKey relation.leftEntity relation.leftField) := by
  refine ⟨fun node hnode params hparams => ?_, fun node hnode params hparams => ?_⟩
  · obtain ⟨before, after, hnodes⟩ := List.append_of_mem hnode
    obtain ⟨walked, walked', -, hkept, hvisit⟩ := kept hsqg hvalid hnodes
    obtain ⟨-, parents, hchecked⟩ := hsqg.checked hnodes
    obtain ⟨parent, rfl, -, hsources, -⟩ := hchecked.aggregate hparams
    have hoperator : visitOperator ontology walked node = .ok walked' := by simpa only [visit, hparams] using hvisit
    obtain ⟨inherited, bindings, hbindings, hchecks⟩ := visitOperator_checks hoperator
    refine ⟨parent.id, inputs_eq_ids hchecked, fun measure hmeasure => ?_⟩
    simp only [checkOperator, hparams] at hchecks
    obtain ⟨metric, binding, hmeasured⟩ := checkMeasure_spec (forM_eq_ok.mp hchecks measure hmeasure)
    refine ⟨metric, hmeasured.named, ?_⟩
    rw [← hmeasured.field.1, ← hmeasured.field.2]
    exact hkept.governed hsqg hchecked hbindings rfl (hsources measure hmeasure) hmeasured.source engine data
  · obtain ⟨before, after, hnodes⟩ := List.append_of_mem hnode
    obtain ⟨walked, walked', -, hkept, hvisit⟩ := kept hsqg hvalid hnodes
    obtain ⟨-, parents, hchecked⟩ := hsqg.checked hnodes
    obtain ⟨left, right, rfl, hleft, hright, -⟩ := hchecked.join hparams
    have hoperator : visitOperator ontology walked node = .ok walked' := by simpa only [visit, hparams] using hvisit
    obtain ⟨inherited, bindings, hbindings, hchecks⟩ := visitOperator_checks hoperator
    simp only [checkOperator, hparams] at hchecks
    obtain ⟨relation, leftBinding, rightBinding, hkeys⟩ := checkJoin_spec hchecks
    have hl := hkept.governed hsqg hchecked hbindings rfl hleft hkeys.leftKey engine data
    have hr := hkept.governed hsqg hchecked hbindings rfl hright hkeys.rightKey engine data
    refine ⟨left.id, right.id, relation, inputs_eq_ids hchecked, hkeys.named, hkeys.way.imp ?_ ?_⟩
    · rintro ⟨⟨he, hf⟩, he', hf'⟩
      rw [← he, ← hf, ← he', ← hf']
      exact ⟨hl, hr⟩
    · rintro ⟨⟨he, hf⟩, he', hf'⟩
      rw [← he, ← hf, ← he', ← hf']
      exact ⟨hl, hr⟩

end

/-! ## Two salaries -/

def plainEngine : Engine := ⟨fun _ => 0, fun _ => 0, fun _ => "", fun a b => if b = 0 then none else some (a / b)⟩

/-- One employee, who manages the other. -/
def hires : Data := fun _ => [
  fun field => if field = "id" then .number 1 else if field = "salary" then .number 70 else .null,
  fun field => if field = "id" then .number 2 else if field = "salary" then .number 50 else .number 1]

theorem payroll_governed : Governed payroll plainEngine staff hires "pairs" "salary" "employee" "salary" := by
  have hvalid : validateSqg payroll staff = .ok () := rfl
  have htotals : (⟨"totals", ["pairs"], [⟨"boss", .integer, false⟩, ⟨"total", .decimal, false⟩],
      .aggregate { groupBy := ["boss"], measures := [⟨"payroll", "salary", "total"⟩] }⟩ : SQGNode) ∈ payroll.nodes :=
    List.mem_cons_of_mem _ (List.mem_cons_of_mem _ List.mem_cons_self)
  obtain ⟨input, hinput, hmeasures⟩ := (governed_columns payroll_accepted hvalid plainEngine hires).1 _ htotals _ rfl
  obtain rfl : "pairs" = input := (List.cons.inj hinput).1
  obtain ⟨metric, hmetric, hgoverned⟩ := hmeasures _ List.mem_cons_self
  obtain rfl : (⟨"payroll", "employee", "salary", .sum⟩ : Metric) = metric := Option.some.inj hmetric
  exact hgoverned

end DataNexus.SemanticCore
