/-
  DataNexus.SemanticCore.Shape — what acceptance leaves open: nothing but the operators.

  - `accepted_shape`: in an accepted graph every input comes before the node that reads it,
    every node feeds the root, and so the root comes last.
  - `declared_unique`: what the outputs of a valid graph are called, their types and whether
    they may be null all follow from its operators, and so does the root. Two valid graphs of
    the same operators are the same graph.
-/

import DataNexus.SemanticCore.NullSafety

namespace DataNexus.SemanticCore

open Lib

/-! ## The root -/

/-- The node of the first id reads the rows of the second. -/
def Feeds (sqg : SemanticQueryGraph) (id dependency : String) : Prop := ∃ node ∈ sqg.nodes, node.id = id ∧ dependency ∈ node.inputs

section

variable {calendar : Calendar} {sqg : SemanticQueryGraph}

theorem feeds_of_inputsOf {id dependency : String} (h : dependency ∈ sqg.inputsOf id) : Feeds sqg id dependency := by
  unfold SemanticQueryGraph.inputsOf at h
  cases hfind : sqg.nodes.find? (·.id == id) with
  | none => simp [hfind] at h
  | some node => exact ⟨node, List.mem_of_find?_eq_some hfind, by simpa using List.find?_some hfind, by simpa [hfind] using h⟩

/-- Every node is the root, or feeds it through others. -/
theorem SemanticQueryGraph.Accepted.consumed (h : sqg.Accepted calendar) {node : SQGNode} (hnode : node ∈ sqg.nodes) :
    Relation.ReflTransGen (Feeds sqg) sqg.root node.id := by
  have hgraph := h.graph
  simp only [SemanticQueryGraph.graphIsDeterministic, bind_eq_ok, refuseIf_eq_ok, Bool.not_eq_false', List.isEmpty_iff] at hgraph
  obtain ⟨_, -, _, -, _, -, hclosure⟩ := hgraph
  have hancestor : node.id ∈ sqg.ancestors := by
    have hall := List.filter_eq_nil_iff.mp hclosure node.id (List.mem_map_of_mem hnode)
    simpa using hall
  rcases Worklist.walk_sound hancestor with hnone | ⟨start, hstart, hreaches⟩
  · cases hnone
  · obtain rfl := List.mem_singleton.mp hstart
    exact Relation.ReflTransGen.mono (fun _ _ => feeds_of_inputsOf) _ _ hreaches

theorem SemanticQueryGraph.Accepted.inputs_before (h : sqg.Accepted calendar) {before after : List SQGNode} {node : SQGNode}
    (hnodes : sqg.nodes = before ++ node :: after) : ∀ id ∈ node.inputs, id ∈ before.map (·.id) := by
  obtain ⟨-, parents, hchecked⟩ := h.checked hnodes
  exact hchecked.input_mem

/-- Nothing comes after the root. -/
theorem SemanticQueryGraph.Accepted.root_last (h : sqg.Accepted calendar) :
    ∃ before root, sqg.nodes = before ++ [root] ∧ root.id = sqg.root := by
  have hne : sqg.nodes ≠ [] := by
    have hgraph := h.graph
    simp only [SemanticQueryGraph.graphIsDeterministic, bind_eq_ok, refuseIf_eq_ok, Bool.not_eq_false'] at hgraph
    obtain ⟨_, -, _, hroot, -⟩ := hgraph
    obtain ⟨node, hnode, -⟩ := List.mem_map.mp (List.contains_iff_mem.mp hroot)
    exact List.ne_nil_of_mem hnode
  obtain ⟨before, last, hlast⟩ := (List.eq_nil_or_concat sqg.nodes).resolve_left hne
  rw [List.concat_eq_append] at hlast
  refine ⟨before, last, hlast, ?_⟩
  have hmem : last ∈ sqg.nodes := by simp [hlast]
  rcases Relation.ReflTransGen.cases_tail (h.consumed hmem) with heq | ⟨id, -, node, hnode, -, hinput⟩
  · exact heq
  -- a node that reads the last one would come after it
  obtain ⟨front, back, hsplit⟩ := List.append_of_mem hnode
  have hfront := h.inputs_before hsplit _ hinput
  have hback : last ∈ node :: back := by
    have hgetLast : (node :: back).getLast (by simp) = last := by
      have hboth : front ++ node :: back = before ++ [last] := by rw [← hsplit, hlast]
      have := congrArg List.getLast? hboth
      rw [List.getLast?_append_of_ne_nil _ (by simp), List.getLast?_concat, List.getLast?_eq_getLast_of_ne_nil (by simp)] at this
      exact Option.some.inj this
    exact hgetLast ▸ List.getLast_mem _
  have hnodup := h.nodup
  rw [hsplit, List.map_append] at hnodup
  exact (List.disjoint_of_nodup_append hnodup hfront (List.mem_map_of_mem hback)).elim

/-- Nothing comes after the root of an accepted graph, and everything feeds it. -/
theorem accepted_shape (h : sqg.Accepted calendar) :
    (∃ before root, sqg.nodes = before ++ [root] ∧ root.id = sqg.root) ∧
      (∀ before node after, sqg.nodes = before ++ node :: after → ∀ id ∈ node.inputs, id ∈ before.map (·.id)) ∧
        ∀ node ∈ sqg.nodes, Relation.ReflTransGen (Feeds sqg) sqg.root node.id :=
  ⟨h.root_last, fun _ _ _ hnodes => h.inputs_before hnodes, fun _ hnode => h.consumed hnode⟩

end

theorem payroll_shape :
    (∃ before root, payroll.nodes = before ++ [root] ∧ root.id = payroll.root) ∧
      (∀ before node after, payroll.nodes = before ++ node :: after → ∀ id ∈ node.inputs, id ∈ before.map (·.id)) ∧
        ∀ node ∈ payroll.nodes, Relation.ReflTransGen (Feeds payroll) payroll.root node.id :=
  accepted_shape payroll_accepted

/-! ## What the operators decide -/

/-- The same node, but for what it declares of its outputs. -/
structure SameOperator (node node' : SQGNode) : Prop where
  id : node.id = node'.id
  inputs : node.inputs = node'.inputs
  params : node.params = node'.params

theorem OutputField.eq_of {output output' : OutputField} (hname : output.name = output'.name) (htype : output.dataType = output'.dataType)
    (hnullable : output.nullable = output'.nullable) : output = output' := by
  cases output
  cases output'
  simp only [OutputField.mk.injEq]
  exact ⟨hname, htype, hnullable⟩

theorem outputs_eq_of {outputs outputs' : List OutputField} (hnames : outputs.map (·.name) = outputs'.map (·.name))
    (h : ∀ output ∈ outputs, ∀ output' ∈ outputs', output.name = output'.name → output = output') : outputs = outputs' := by
  induction outputs generalizing outputs' with
  | nil => exact (List.map_eq_nil_iff.mp hnames.symm).symm
  | cons output outputs ih =>
    cases outputs' with
    | nil => cases hnames
    | cons output' outputs' =>
      obtain ⟨hname, hrest⟩ := List.cons.inj hnames
      rw [h output List.mem_cons_self output' List.mem_cons_self hname,
        ih hrest fun o ho o' ho' => h o (List.mem_cons_of_mem _ ho) o' (List.mem_cons_of_mem _ ho')]

section

variable {calendar : Calendar} {ontology : Ontology} {nodes done : List SQGNode} {node node' : SQGNode} {parents parents' : List SQGNode}
  {walked after after' : Walked}

theorem parents_unique (hnodup : (done.map (·.id)).Nodup) {inputs : List String}
    (h : List.Forall₂ (fun dependency parent => parent ∈ done ∧ parent.id = dependency) inputs parents)
    (h' : List.Forall₂ (fun dependency parent => parent ∈ done ∧ parent.id = dependency) inputs parents') : parents = parents' := by
  induction h generalizing parents' with
  | nil => exact (List.forall₂_nil_left_iff.mp h').symm
  | cons hfirst _ ih =>
    obtain ⟨parent', rest', hfirst', hrest', rfl⟩ := List.forall₂_cons_left_iff.mp h'
    rw [List.inj_on_of_nodup_map hnodup hfirst.1 hfirst'.1 (hfirst.2.trans hfirst'.2.symm), ih hrest']

theorem SameOperator.names (h : SameOperator node node') (hchecked : Checked calendar done node parents)
    (hchecked' : Checked calendar done node' parents) : node.outputNames = node'.outputNames := by
  have hsame : validateOperator calendar node (parents.map (·.outputs)) = validateOperator calendar node' (parents.map (·.outputs)) := by
    unfold validateOperator
    rw [h.params, h.id]
  exact Except.ok.inj (hchecked.operator.symm.trans (hsame.trans hchecked'.operator))

theorem selected_unique {entity : String} {fields : List String} (hvisit : visitSelect ontology walked node entity fields = .ok after)
    (hvisit' : visitSelect ontology walked node' entity fields = .ok after') {output output' : OutputField}
    (houtput : output ∈ node.outputs) (houtput' : output' ∈ node'.outputs) (hname : output.name = output'.name) : output = output' := by
  simp only [visitSelect, bind_eq_ok, pure_eq_ok] at hvisit hvisit'
  obtain ⟨_, -, _, -, _, -, _, hselected, -⟩ := hvisit
  obtain ⟨_, -, _, -, _, -, _, hselected', -⟩ := hvisit'
  have hcheck := forM_eq_ok.mp hselected output houtput
  have hcheck' := forM_eq_ok.mp hselected' output' houtput'
  simp only [checkSelected, bind_eq_ok, invalidIf, refuseIf_eq_ok, bne_eq_false_iff_eq] at hcheck hcheck'
  obtain ⟨known, hknown, field, hfield, _, htype, hnullable⟩ := hcheck
  obtain ⟨known', hknown', field', hfield', _, htype', hnullable'⟩ := hcheck'
  obtain rfl := Except.ok.inj (hknown.symm.trans hknown')
  rw [hname] at hfield
  obtain rfl := Except.ok.inj (hfield.symm.trans hfield')
  exact OutputField.eq_of hname (htype.trans htype'.symm) (hnullable.trans hnullable'.symm)

/-- A measure's output follows from its metric and the occurrence that it reads. -/
theorem measured_unique (hkept : Kept ontology nodes done walked) (hchecked : Checked calendar done node parents)
    (hsame : SameOperator node node') (hnodup : node.outputNames.Nodup) (hnodup' : node'.outputNames.Nodup) {params : AggregateParams}
    (hparams : node.params = .aggregate params) (hvisit : visitOperator ontology walked node = .ok after)
    (hvisit' : visitOperator ontology walked node' = .ok after') {output output' : OutputField} (houtput : output ∈ node.outputs)
    (houtput' : output' ∈ node'.outputs) (hname : output.name = output'.name)
    (hcomputed : (params.measures.map (·.name)).contains output.name = true) : output = output' := by
  obtain ⟨measure, hmeasure, -, hmname⟩ := exists_find?_name hcomputed
  obtain ⟨_, bindings, hbindings, hchecks⟩ := visitOperator_checks hvisit
  obtain ⟨_, bindings', hbindings', hchecks'⟩ := visitOperator_checks hvisit'
  rw [← hsame.inputs] at hbindings'
  obtain rfl := Except.ok.inj (hbindings.symm.trans hbindings')
  simp only [checkOperator, hparams] at hchecks
  simp only [checkOperator, hsame.params ▸ hparams] at hchecks'
  obtain ⟨metric, binding, hmeasured⟩ := checkMeasure_spec (forM_eq_ok.mp hchecks measure hmeasure)
  obtain ⟨metric', binding', hmeasured'⟩ := checkMeasure_spec (forM_eq_ok.mp hchecks' measure hmeasure)
  obtain rfl := Option.some.inj (hmeasured.named.symm.trans hmeasured'.named)
  -- both read the only occurrence of the column
  obtain ⟨entries, found, hentries, hfound, hmem⟩ := hmeasured.source
  obtain ⟨entries', found', hentries', hfound', hmem'⟩ := hmeasured'.source
  obtain rfl := Except.ok.inj (hentries.symm.trans hentries')
  obtain rfl := Option.some.inj (hfound.symm.trans hfound')
  obtain ⟨parent, rfl, -, hsources, -⟩ := hchecked.aggregate hparams
  have hfirst : [parent][0]? = some parent := rfl
  obtain ⟨-, hof⟩ := hkept.input hchecked hbindings hentries hfirst
  obtain ⟨source, hsource, hsname⟩ := List.mem_map.mp (hsources measure hmeasure)
  have hone := (hof source hsource found (hsname ▸ hfound)).1
  obtain rfl : binding = binding' := by
    obtain ⟨only, rfl⟩ := List.length_eq_one_iff.mp (le_antisymm hone (List.length_pos_of_mem hmem))
    rw [List.mem_singleton.mp hmem, List.mem_singleton.mp hmem']
  obtain ⟨declared, field, hdeclared, hfield, htype, hnullable⟩ := hmeasured.output
  obtain ⟨declared', field', hdeclared', hfield', htype', hnullable'⟩ := hmeasured'.output
  obtain ⟨hdmem, hdname⟩ := mem_of_firstOf hdeclared
  obtain ⟨hdmem', hdname'⟩ := mem_of_firstOf hdeclared'
  obtain rfl := output_unique hnodup houtput hdmem (hdname.trans hmname)
  obtain rfl := output_unique hnodup' houtput' hdmem' (hdname'.trans (hmname.trans hname))
  obtain rfl := Option.some.inj (hfield.symm.trans hfield')
  exact OutputField.eq_of hname (Except.ok.inj (htype.symm.trans htype')) (hnullable.trans hnullable'.symm)

/-- One node: its outputs follow from its operator and from the nodes before. -/
theorem outputs_unique (hkept : Kept ontology nodes done walked) (hchecked : Checked calendar done node parents)
    (hchecked' : Checked calendar done node' parents) (hsame : SameOperator node node') (hnodup : node.outputNames.Nodup)
    (hparents : ∀ parent ∈ parents, parent.outputNames.Nodup) (hvisit : visit ontology walked node = .ok after)
    (hvisit' : visit ontology walked node' = .ok after') : node.outputs = node'.outputs := by
  have hnames := hsame.names hchecked hchecked'
  refine outputs_eq_of hnames fun output houtput output' houtput' hname => ?_
  cases hfrom : passedFrom node.params output.name with
  | some source =>
    obtain ⟨i, column⟩ := source
    obtain ⟨parent, declared, hpassed⟩ := hchecked.passed houtput hfrom
    rw [hsame.params, hname] at hfrom
    obtain ⟨parent', declared', hpassed'⟩ := hchecked'.passed houtput' hfrom
    obtain rfl := Option.some.inj (hpassed.input.symm.trans hpassed'.input)
    have hunique := hparents parent (List.mem_of_getElem? hpassed.input)
    obtain rfl := output_unique hunique hpassed.mem hpassed'.mem (hpassed'.name.trans hpassed.name.symm)
    refine OutputField.eq_of hname (hpassed.type.trans hpassed'.type.symm) ?_
    rw [hpassed.nullable, hpassed'.nullable, hsame.params]
  | none =>
    have hnodup' : node'.outputNames.Nodup := hnames ▸ hnodup
    cases hp : node.params with
    | select entity fields =>
      simp only [visit, hp] at hvisit
      simp only [visit, hsame.params ▸ hp] at hvisit'
      exact selected_unique hvisit hvisit' houtput houtput' hname
    | filter predicate => simp [hp, passedFrom] at hfrom
    | sort keys => simp [hp, passedFrom] at hfrom
    | project fields => simp [hp, passedFrom] at hfrom
    | aggregate params =>
      simp only [visit, hp] at hvisit
      simp only [visit, hsame.params ▸ hp] at hvisit'
      have hcomputed : (params.measures.map (·.name)).contains output.name = true := by
        rw [hp, passedFrom] at hfrom
        split at hfrom
        · assumption
        · cases hfrom
      exact measured_unique hkept hchecked hsame hnodup hnodup' hp hvisit hvisit' houtput houtput' hname hcomputed
    | pivot params =>
      have hcomputed : params.expectedColumns.contains output.name = true := by
        rw [hp, passedFrom] at hfrom
        split at hfrom
        · assumption
        · cases hfrom
      obtain ⟨parent, source, rfl, hmem, hsname, htype, hnullable⟩ := hchecked.pivoted hp houtput hcomputed
      obtain ⟨parent', source', hone, hmem', hsname', htype', hnullable'⟩ :=
        hchecked'.pivoted (hsame.params ▸ hp) houtput' (hname ▸ hcomputed)
      obtain rfl := (List.cons.inj hone).1
      obtain rfl := output_unique (hparents parent List.mem_cons_self) hmem hmem' (hsname'.trans hsname.symm)
      exact OutputField.eq_of hname (Except.ok.inj (htype.symm.trans htype')) (hnullable.trans hnullable'.symm)
    | derive expressions =>
      have hcomputed : (expressions.map (·.name)).contains output.name = true := by
        rw [hp, passedFrom] at hfrom
        split at hfrom
        · assumption
        · cases hfrom
      obtain ⟨expression, hexpression, -, hename⟩ := exists_find?_name hcomputed
      obtain ⟨parent, rfl, htype, hnullable⟩ := hchecked.derived hp houtput hexpression hename
      obtain ⟨parent', hone, htype', hnullable'⟩ :=
        hchecked'.derived (hsame.params ▸ hp) houtput' hexpression (hename.trans hname)
      obtain rfl := (List.cons.inj hone).1
      rw [← hsame.id] at htype'
      exact OutputField.eq_of hname (Except.ok.inj (htype.symm.trans htype')) (Except.ok.inj (hnullable.symm.trans hnullable'))
    | join params =>
      have hmem : output.name ∈ node.outputNames := List.mem_map_of_mem houtput
      obtain ⟨_, _, -, -, -, -, hfields, -⟩ := hchecked.join hp
      rw [hp, passedFrom, Option.map_eq_none_iff] at hfrom
      obtain ⟨projection, hprojection, heq⟩ := List.mem_map.mp (hfields ▸ hmem)
      exact (List.find?_eq_none.mp hfrom projection hprojection (beq_iff_eq.mpr heq)).elim

end

theorem version_eq {ontology : Ontology} {sqg : SemanticQueryGraph} (hvalid : validateSqg sqg ontology = .ok ()) :
    sqg.ontologyVersion = ontology.version := by
  simp only [validateSqg, bind_eq_ok, invalidIf, refuseIf_eq_ok, bne_eq_false_iff_eq] at hvalid
  exact hvalid.choose_spec.1

/-- Two valid graphs of the same operators declare the same of every output. -/
theorem nodes_unique {calendar : Calendar} {ontology : Ontology} {sqg sqg' : SemanticQueryGraph} (hsqg : sqg.Accepted calendar)
    (hsqg' : sqg'.Accepted calendar) (hvalid : validateSqg sqg ontology = .ok ()) (hvalid' : validateSqg sqg' ontology = .ok ())
    (hsame : List.Forall₂ SameOperator sqg.nodes sqg'.nodes) : sqg.nodes = sqg'.nodes := by
  suffices ∀ before rest rest', sqg.nodes = before ++ rest → sqg'.nodes = before ++ rest' → List.Forall₂ SameOperator rest rest' →
      rest = rest' from this [] _ _ rfl rfl hsame
  intro before rest rest' hnodes hnodes' hrest
  induction hrest generalizing before with
  | nil => rfl
  | @cons node node' rest rest' hfirst _ ih =>
    obtain ⟨walked, after, hloop, hkept, hvisit⟩ := kept hsqg hvalid hnodes
    obtain ⟨walked', after', hloop', -, hvisit'⟩ := kept hsqg' hvalid' hnodes'
    obtain rfl := Except.ok.inj (hloop.symm.trans hloop')
    obtain ⟨-, parents, hchecked⟩ := hsqg.checked hnodes
    obtain ⟨-, parents', hchecked'⟩ := hsqg'.checked hnodes'
    have hids : (before.map (·.id)).Nodup := by
      have hnodup := hsqg.nodup
      rw [hnodes, List.map_append] at hnodup
      exact hnodup.of_append_left
    obtain rfl := parents_unique hids hchecked.inputs (hfirst.inputs ▸ hchecked'.inputs)
    have hmem : node ∈ sqg.nodes := by simp [hnodes]
    have hparents : ∀ parent ∈ parents, parent.outputNames.Nodup := by
      intro parent hparent
      obtain ⟨_, -, hdone, -⟩ := mem_of_forall₂ hchecked.inputs hparent
      exact hsqg.outputs_nodup (hnodes ▸ List.mem_append_left _ hdone)
    have houtputs := outputs_unique hkept hchecked hchecked' hfirst (hsqg.outputs_nodup hmem) hparents hvisit hvisit'
    obtain rfl : node = node' := by
      obtain ⟨hid, hinputs, hparams⟩ := hfirst
      cases node
      cases node'
      simp only [SQGNode.mk.injEq]
      exact ⟨hid, hinputs, houtputs, hparams⟩
    rw [ih (before ++ [node]) (by rw [hnodes, List.append_assoc, List.singleton_append])
      (by rw [hnodes', List.append_assoc, List.singleton_append])]

/-- A valid graph follows from its operators: what the outputs are called, their types, whether they may be null, and the root. -/
theorem declared_unique {calendar : Calendar} {ontology : Ontology} {sqg sqg' : SemanticQueryGraph} (hsqg : sqg.Accepted calendar)
    (hsqg' : sqg'.Accepted calendar) (hvalid : validateSqg sqg ontology = .ok ()) (hvalid' : validateSqg sqg' ontology = .ok ())
    (hsame : List.Forall₂ SameOperator sqg.nodes sqg'.nodes) : sqg = sqg' := by
  have hnodes := nodes_unique hsqg hsqg' hvalid hvalid' hsame
  obtain ⟨before, root, hlast, hroot⟩ := hsqg.root_last
  obtain ⟨before', root', hlast', hroot'⟩ := hsqg'.root_last
  have hsameRoot : root = root' := by
    rw [hlast, hlast'] at hnodes
    exact (List.append_inj' hnodes rfl).2 |> List.singleton_inj.mp
  have hversion : sqg.ontologyVersion = sqg'.ontologyVersion := (version_eq hvalid).trans (version_eq hvalid').symm
  cases sqg
  cases sqg'
  simp only [SemanticQueryGraph.mk.injEq]
  exact ⟨hversion, hnodes, hroot.symm.trans (hsameRoot ▸ hroot')⟩

/-- The same operators, with a total that may be null. -/
def optionalTotal : SemanticQueryGraph :=
  { payroll with
    nodes := payroll.nodes.map fun node =>
      { node with outputs := node.outputs.map fun output => if output.name = "total" then { output with nullable := true } else output } }

theorem optionalTotal_sameOperator : List.Forall₂ SameOperator payroll.nodes optionalTotal.nodes := by
  rw [optionalTotal, List.forall₂_map_right_iff, List.forall₂_same]
  exact fun _ _ => ⟨rfl, rfl, rfl⟩

/-- The payroll is accepted and valid, so that the other declaration is not. -/
theorem payroll_declared : payroll.Accepted noCalendar ∧ validateSqg payroll staff = .ok () ∧
    ¬ (optionalTotal.Accepted noCalendar ∧ validateSqg optionalTotal staff = .ok ()) := by
  have hvalid : validateSqg payroll staff = .ok () := rfl
  refine ⟨payroll_accepted, hvalid, fun ⟨haccepted, hvalid'⟩ => ?_⟩
  have hsame := declared_unique payroll_accepted haccepted hvalid hvalid' optionalTotal_sameOperator
  have houtputs : (payroll.nodes.map fun node => node.outputs.map (·.nullable)) =
      optionalTotal.nodes.map fun node => node.outputs.map (·.nullable) := by rw [← hsame]
  exact absurd houtputs (by decide)

end DataNexus.SemanticCore
